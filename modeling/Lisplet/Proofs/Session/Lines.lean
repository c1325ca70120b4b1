import Lisplet.Proofs.Form.Beginning
import Lisplet.Proofs.Form.Range
import Lisplet.Proofs.Scanning.Layout
import Lisplet.Proofs.Session.Unbalanced
import Lisplet.Proofs.Value.Depth

/-!
# Programs entered line by line

A form that is entered over several lines is evaluated once, on the line with its last parenthesis,
and to the same effect as when it is run at once. Until then the lines entered spell a beginning of
the form, so the session waits for more. Blanks around a line and blank lines make no difference.
-/

namespace Lisplet

open Text

/-- A line without blanks at its ends that a session takes for a command. -/
def Command.IsReserved (line : List Char) : Prop :=
  line.head? = some '?' ∨
    line.takeWhile isWordChar ∈ ["help".toList, "exit".toList, "EOF".toList]

instance : DecidablePred Command.IsReserved := fun _ => inferInstanceAs (Decidable (_ ∨ _))

/-- A line that is no command is program text without the blanks at its ends, or blank. -/
theorem Command.ofLine_of_not_isReserved {line : List Char}
    (h : ¬ IsReserved (trimWhere isBlank line)) :
    ofLine (String.ofList line) = if trimWhere isBlank line = [] then .nothing
      else .program (String.ofList (trimWhere isBlank line)) := by
  rw [ofLine, trim, String.toList_ofList]
  generalize trimWhere isBlank line = trimmed at h ⊢
  simp only [IsReserved, List.mem_cons, List.not_mem_nil, or_false, not_or] at h
  obtain ⟨hmark, hhelp, hexit, hend⟩ := h
  rw [ofTrimmed, String.toList_ofList]
  split
  · rfl
  · exact absurd rfl hmark
  · next hne _ => rw [if_neg hhelp, if_neg hexit, if_neg hend, if_neg hne]

namespace Session

variable {host : Host} {colour : Bool} {s s₀ : Session}

/-- The session after it has taken lines one by one. -/
def afterLines (host : Host) (colour : Bool) (s : Session) (lines : List (List Char)) : Session :=
  lines.foldl (fun s line => (s.enter host colour (String.ofList line)).session) s

/-- Lines are taken from the first on. -/
theorem afterLines_cons (line : List Char) (lines : List (List Char)) :
    s.afterLines host colour (line :: lines) =
      (s.enter host colour (String.ofList line)).session.afterLines host colour lines :=
  List.foldl_cons ..

/-- A reply without effect: nothing is printed or evaluated, and the interpreter is as before. -/
structure IsQuiet (i : Interpreter) (r : Reply) : Prop where
  output : r.output = ""
  stops : r.stops = false
  fault : r.fault = none
  events : r.events.filter Event.isOfEvaluation = []
  interpreter : r.session.interpreter = i

/-- A reply that reports what a program has come to. It prints the value of the program, if there is
the room for it, or its error, and makes the session ready for another program. Only an error that
says that a text is unbalanced is not printed, and the session asks for more. A fault is passed
on. -/
structure Reports (stack : HostStack) (colour : Bool) (run : Run) (r : Reply) : Prop where
  stops : r.stops = false
  events : r.events.filter Event.isOfEvaluation = run.events.filter Event.isOfEvaluation
  interpreter : r.session.interpreter = run.interpreter
  value : ∀ v, run.outcome = .ok v → stack.displays v = true →
    r.output = v.display ++ "\n" ∧ r.fault = none ∧
    r.session = { interpreter := run.interpreter }
  error : ∀ e, run.outcome = .error (.error e) → isUnbalanced (.error e) = false →
    r.output = e.report colour ++ "\n" ∧ r.fault = none ∧
    r.session = { interpreter := run.interpreter }
  unbalanced : ∀ failure, run.outcome = .error failure → isUnbalanced failure = true →
    r.output = "" ∧ r.fault = none ∧ r.session.prompt = .more
  fault : ∀ f, run.outcome = .error (.fault f) → r.output = "" ∧ r.fault = some f

/-- The text that a line of program text makes together with the text kept before it. -/
def joined (s : Session) (line : String) : String :=
  if s.pending.isEmpty then line else s.pending ++ "\n" ++ line

/-- The answer to program text, given what it has come to. -/
def answer (stack : HostStack) (colour : Bool) (s : Session) (code : String) (run : Run) : Reply :=
  match run.outcome.bind stack.shown with
  | .ok text =>
    { session := { interpreter := run.interpreter }, output := text ++ "\n"
      events := run.events }
  | .error failure =>
    if isUnbalanced failure then
      { session := { interpreter := run.interpreter, pending := code, prompt := .more }
        events := run.events }
    else match failure with
      | .error e =>
        { session := { interpreter := run.interpreter }, output := e.report colour ++ "\n"
          events := run.events }
      | .fault f =>
        { session := { s with interpreter := run.interpreter }, events := run.events
          fault := some f }

/-- A line of program text is answered when the program it is the end of has been run. -/
theorem enterProgram_eq (line : String) : s.enterProgram host colour line =
    s.answer host.stack colour (s.joined line) (s.interpreter.run host (s.joined line)) := rfl

/-- The answer reports what the program has come to. -/
theorem reports_answer (stack : HostStack) (code : String) (run : Run) :
    Reports stack colour run (s.answer stack colour code run) := by
  unfold answer
  cases houtcome : run.outcome with
  | ok v =>
    rw [Except.bind]
    cases hdisplays : stack.displays v with
    | true =>
      rw [HostStack.shown_of_displays hdisplays]
      constructor <;> simp [houtcome]
    | false =>
      rw [HostStack.shown_of_not_displays hdisplays]
      constructor <;> simp [houtcome, hdisplays, isUnbalanced]
  | error failure =>
    rw [Except.bind]
    cases failure with
    | error e =>
      by_cases hunbalanced : isUnbalanced (.error e) = true
      · constructor <;> simp_all
      · constructor <;> simp_all
    | fault f => constructor <;> simp_all [isUnbalanced]

/-- Replies report runs that come to the same alike. -/
theorem Reports.congr {stack : HostStack} {run other : Run} {r : Reply}
    (h : Reports stack colour run r)
    (houtcome : run.outcome = other.outcome)
    (hevents : run.events.filter Event.isOfEvaluation = other.events.filter Event.isOfEvaluation)
    (hinterpreter : run.interpreter = other.interpreter) : Reports stack colour other r := by
  obtain ⟨hstops, hreported, hkept, hvalue, herror, hunbalanced, hfault⟩ := h
  rw [houtcome] at hvalue herror hunbalanced hfault
  rw [hinterpreter] at hkept hvalue herror
  exact ⟨hstops, hreported.trans hevents, hkept, hvalue, herror, hunbalanced, hfault⟩

/-- A blank line does nothing. -/
theorem enter_of_blank {line : List Char} (h : trimWhere isBlank line = []) :
    s.enter host colour (String.ofList line) = { session := s } := by
  have hcommand : Command.ofLine (String.ofList line) = .nothing := by
    rw [Command.ofLine, trim, String.toList_ofList, h]
    rfl
  rw [enter, hcommand, obey]

/-- A line that is no command and not blank is program text without the blanks at its ends. -/
theorem enter_of_not_blank {line : List Char} (h : trimWhere isBlank line ≠ [])
    (hreserved : ¬ Command.IsReserved (trimWhere isBlank line)) :
    s.enter host colour (String.ofList line) =
      s.enterProgram host colour (String.ofList (trimWhere isBlank line)) := by
  rw [enter, Command.ofLine_of_not_isReserved hreserved, if_neg h, obey]

/-- A session that has taken some lexemes of a form since it was in another state: as long as there
are none it is still in that state, and otherwise the text it keeps spells them. -/
structure Awaits (s₀ s : Session) (done : List Lexeme) : Prop where
  interpreter : s.interpreter = s₀.interpreter
  start : done = [] → s = s₀
  pending : done ≠ [] → s.prompt = .more ∧ s.pending ≠ "" ∧ Cursor.Spells s.pending.toList done

/-- A session has taken nothing yet. -/
theorem Awaits.refl (s : Session) : Awaits s s [] :=
  ⟨rfl, fun _ => rfl, fun h => absurd rfl h⟩

/-- The text kept so far and another line spell what both spell. -/
theorem Awaits.spells_joined {done first : List Lexeme} (h : Awaits s₀ s done)
    (hready : s₀.pending = "") (line : String) (hline : Cursor.Spells line.toList first) :
    Cursor.Spells (s.joined line).toList (done ++ first) := by
  by_cases hdone : done = []
  · have hpending : s.pending.isEmpty = true := by simp [h.start hdone, hready]
    rwa [joined, if_pos hpending, hdone, List.nil_append]
  · obtain ⟨-, hne, hspells⟩ := h.pending hdone
    have hpending : ¬ s.pending.isEmpty = true := by simpa using hne
    have htext : (s.pending ++ "\n" ++ line).toList = s.pending.toList ++ '\n' :: line.toList := by
      simp
    rw [joined, if_neg hpending, htext]
    exact hspells.separated rfl hline

/-- A text that ends with a line that is not empty is not empty. -/
theorem joined_ne_empty {line : String} (h : line ≠ "") : s.joined line ≠ "" := by
  unfold joined
  split
  · exact h
  · simp

/-- A session that keeps no text, and a form that its interpreter can read. -/
structure CanRead (s₀ : Session) (form : List Value) : Prop where
  ready : s₀.pending = ""
  plain : (Value.list form).IsPlain
  nesting : ((Value.list form).nesting : Int) ≤ max 1 s₀.interpreter.settings.maxDepth

/-- A line that is no command and spells some lexemes without the blanks at its ends. -/
structure IsPart (line : List Char) (lexemes : List Lexeme) : Prop where
  unreserved : ¬ Command.IsReserved (trimWhere isBlank line)
  spells : Cursor.Spells (trimWhere isBlank line) lexemes
  blank : lexemes = [] ↔ trimWhere isBlank line = []

/-- The answer to a program that is unbalanced keeps its text. -/
theorem answer_of_unbalanced {stack : HostStack} {code : String} {run : Run} {failure : Failure}
    (houtcome : run.outcome = .error failure) (h : isUnbalanced failure = true) :
    s.answer stack colour code run =
      { session := { interpreter := run.interpreter, pending := code, prompt := .more }
        events := run.events } := by
  simp [answer, houtcome, Except.bind, h]

section Form

variable {form : List Value} {done first later : List Lexeme} {line : List Char}

/-- A line that is not blank is answered with the run of a program that spells what has been taken
and what is in the line. -/
theorem Awaits.exists_code (h : Awaits s₀ s done) (hready : s₀.pending = "")
    (hline : IsPart line first) (hfirst : first ≠ []) :
    ∃ code : String, Cursor.Spells code.toList (done ++ first) ∧ code ≠ "" ∧
      s.enter host colour (String.ofList line) =
        s.answer host.stack colour code (s₀.interpreter.run host code) := by
  have htrimmed : trimWhere isBlank line ≠ [] := fun hempty => hfirst (hline.blank.mpr hempty)
  refine ⟨s.joined (String.ofList (trimWhere isBlank line)), ?_, ?_, ?_⟩
  · refine h.spells_joined hready _ ?_
    rw [String.toList_ofList]
    exact hline.spells
  · exact joined_ne_empty (by simpa using htrimmed)
  · rw [enter_of_not_blank htrimmed hline.unreserved, enterProgram_eq, h.interpreter]

/-- A line with which a form is not yet complete is taken without effect. -/
theorem Awaits.enter_beginning (h : Awaits s₀ s done) (hform : CanRead s₀ form)
    (hline : IsPart line first) (hsplit : (Value.list form).lexemes = done ++ first ++ later)
    (hlater : later ≠ []) :
    IsQuiet s₀.interpreter (s.enter host colour (String.ofList line)) ∧
      Awaits s₀ (s.enter host colour (String.ofList line)).session (done ++ first) := by
  by_cases hfirst : first = []
  · rw [enter_of_blank (hline.blank.mp hfirst), hfirst, List.append_nil]
    exact ⟨⟨rfl, rfl, rfl, rfl, h.interpreter⟩, h⟩
  · have hbegun : done ++ first ≠ [] := by simp [hfirst]
    obtain ⟨code, hspells, hne, henter⟩ := h.exists_code hform.ready hline hfirst
    obtain ⟨e, hread, hfault⟩ :=
      Form.drain_of_beginning hform.plain hform.nesting hspells hsplit hbegun hlater
    obtain ⟨houtcome, hevents, hinterpreter⟩ := s₀.interpreter.run_of_no_forms host code hread
    have hunbalanced : isUnbalanced (.error (.source (e.within code))) = true := by
      rw [isUnbalanced, SyntaxError.within, hfault]
      rfl
    rw [henter, answer_of_unbalanced houtcome hunbalanced]
    exact ⟨⟨rfl, rfl, rfl, hevents, hinterpreter⟩,
      ⟨hinterpreter, fun hnone => absurd hnone hbegun, fun _ => ⟨rfl, hne, hspells⟩⟩⟩

/-- The line with which a form is complete is answered with what the form comes to. -/
theorem Awaits.enter_last (h : Awaits s₀ s done) (hform : CanRead s₀ form)
    (hline : IsPart line first) (hsplit : (Value.list form).lexemes = done ++ first)
    (hfirst : first ≠ []) {text : String}
    (htext : Form.parse s₀.interpreter.settings.maxDepth text = .ok form) :
    Reports host.stack colour (s₀.interpreter.run host text)
      (s.enter host colour (String.ofList line)) := by
  obtain ⟨code, hspells, -, henter⟩ := h.exists_code hform.ready hline hfirst
  rw [← hsplit] at hspells
  have hread := Form.drain_of_spells hspells hform.plain hform.nesting
  rw [Form.parse_eq_ok_iff, Form.parseAll_eq_ok_iff] at htext
  obtain ⟨houtcome, hevents, hinterpreter⟩ :=
    s₀.interpreter.run_congr host code (hread.trans htext.symm) (by rw [htext])
  rw [henter]
  exact (reports_answer host.stack code _).congr houtcome hevents hinterpreter

/-- Lines with which a form is not yet complete leave the session waiting for the rest of it. -/
theorem Awaits.afterLines {n : ℕ} {lines : List (List Char)} {tokens : List Token}
    (h : Awaits s₀ s done) (hform : CanRead s₀ form) (hlayout : Layout n lines tokens)
    (hreserved : ∀ line ∈ lines, ¬ Command.IsReserved (trimWhere isBlank line))
    (hsplit : (Value.list form).lexemes = done ++ tokens.map Token.lexeme ++ later)
    (hlater : later ≠ []) :
    Awaits s₀ (s.afterLines host colour lines) (done ++ tokens.map Token.lexeme) := by
  induction hlayout generalizing s done with
  | nil => simpa [Session.afterLines] using h
  | @cons n line lines first others spells blank start rest ih =>
    rw [List.forall_mem_cons] at hreserved
    have hline : IsPart line (first.map Token.lexeme) :=
      ⟨hreserved.1, spells, by rw [List.map_eq_nil_iff, blank]⟩
    rw [List.map_append, ← List.append_assoc] at hsplit ⊢
    have hentered : Awaits s₀ (s.enter host colour (String.ofList line)).session
        (done ++ first.map Token.lexeme) :=
      (h.enter_beginning hform hline (hsplit.trans (List.append_assoc ..)) (by simp [hlater])).2
    rw [afterLines_cons]
    exact ih hentered hreserved.2 hsplit

end Form

/-- A form in a text whose literals stay within their lines: its tokens lie in the lines of the
text, and the last of them is its closing parenthesis. -/
theorem exists_layout {limit : Int} {text : String} {form : List Value}
    (hparse : Form.parse limit text = .ok form)
    (htexts : ∀ t ∈ (Scanner.ofText text).drain.1, t.kind = .text → '\n' ∉ t.raw text.toList) :
    Layout 0 (lines text.toList) (Scanner.ofText text).drain.1 ∧
      ∃ close, (Scanner.ofText text).drain.1.getLast? = some close ∧ close.kind = .closeParen := by
  have hlexemes := Form.lexemes_of_parse hparse
  have hyields := Cursor.yields_drain_ofText text
  rw [Form.parse_eq_ok_iff, Form.parseAll_eq_ok_iff, Form.drain_eq_ok_iff hyields] at hparse
  obtain ⟨⟨here, hending⟩, -, -⟩ := hparse
  rw [hending] at hyields
  generalize (Scanner.ofText text).drain.1 = tokens at *
  have hin : Cursor.In text.toList ⟨text.toList, {}⟩ := rfl
  refine ⟨layout_of_yields hin hyields htexts, ?_⟩
  rw [Value.lexemes_list, ← List.cons_append] at hlexemes
  obtain ⟨inside, final, rfl, -, hfinal⟩ := List.map_eq_append_iff.mp hlexemes.symm
  obtain ⟨close, rfl, hclose⟩ := List.map_eq_singleton_iff.mp hfinal
  exact ⟨close, by simp, by rw [Token.kind, hclose]; rfl⟩

/-- Entering a form line by line comes to the same as running it at once. As long as the line with
its closing parenthesis is to come, nothing is printed or evaluated, and from the first line that is
not blank on the session asks for more. On that line the session reports what the form comes to, and
the lines behind it do nothing. Only an error that a function of the host states could say that the
text is unbalanced, and only then the session is not ready again. -/
theorem enter_lines (host : Host) (colour : Bool) {s : Session} (hready : s.pending = "")
    {text : String} {form : List Value}
    (hparse : Form.parse s.interpreter.settings.maxDepth text = .ok form)
    (htexts : ∀ t ∈ (Scanner.ofText text).drain.1, t.kind = .text → '\n' ∉ t.raw text.toList)
    (hcommands : ∀ line ∈ lines text.toList, ¬ Command.IsReserved (trimWhere isBlank line)) :
    (∀ failure, (s.interpreter.run host text).outcome = .error failure →
      BlamesHost host failure) ∧
    ∃ close, (Scanner.ofText text).drain.1.getLast? = some close ∧ close.kind = .closeParen ∧
      close.start.line < (lines text.toList).length ∧
      ∀ before line after, lines text.toList = before ++ line :: after →
        let reply := (s.afterLines host colour before).enter host colour (String.ofList line)
        (before.length < close.start.line → IsQuiet s.interpreter reply ∧
          ((∀ l ∈ before ++ [line], trimWhere isBlank l = []) → reply.session = s) ∧
          ((∃ l ∈ before ++ [line], trimWhere isBlank l ≠ []) → reply.session.prompt = .more)) ∧
        (before.length = close.start.line →
          Reports host.stack colour (s.interpreter.run host text) reply) ∧
        (close.start.line < before.length →
          reply = { session := s.afterLines host colour before }) := by
  obtain ⟨hlayout, close, hlast, hclose⟩ := exists_layout hparse htexts
  have hlexemes := Form.lexemes_of_parse hparse
  obtain ⟨hwritten, hnesting⟩ := Form.writtenAs_of_parse hparse
  have hform : CanRead s form := ⟨hready, hwritten.plain form List.mem_cons_self, hnesting⟩
  have hread : (Form.drain s.interpreter.settings.maxDepth (.ofText text)).2 = none := by
    rw [Form.parseAll_eq_ok_iff.mp (Form.parse_eq_ok_iff.mp hparse)]
  have hwithin : close.start.line < (lines text.toList).length := by
    have hbounds := hlayout.start_bounds close (List.mem_of_getLast? hlast)
    omega
  refine ⟨fun failure => blamesHost_of_run hread, close, hlast, hclose, hwithin, ?_⟩
  intro before line after hlines
  rw [hlines] at hlayout hcommands
  generalize (Scanner.ofText text).drain.1 = tokens at *
  rw [List.forall_mem_append, List.forall_mem_cons] at hcommands
  obtain ⟨hbefore, hline, -⟩ := hcommands
  obtain ⟨earlier, first, others, rfl, hearlier, hspells, hblank, hto, hat, hpast⟩ :=
    hlayout.exists_parts hlast
  have hpart : IsPart line (first.map Token.lexeme) :=
    ⟨hline, hspells, by rw [List.map_eq_nil_iff, hblank]⟩
  rw [List.map_append, List.map_append] at hlexemes
  have hwaits (hne : first ++ others ≠ []) :
      Awaits s (s.afterLines host colour before) (earlier.map Token.lexeme) :=
    (Awaits.refl s).afterLines hform hearlier hbefore (hlexemes.trans (List.append_assoc ..))
      (by simpa using hne)
  refine ⟨fun hk => ?_, fun hk => ?_, fun hk => ?_⟩
  · -- the closing parenthesis is still to come
    have hothers := hto hk
    obtain ⟨hquiet, hawaits⟩ := (hwaits (by simp [hothers])).enter_beginning hform hpart hlexemes
      (by simpa using hothers)
    have hnone : earlier.map Token.lexeme ++ first.map Token.lexeme = [] ↔
        ∀ l ∈ before ++ [line], trimWhere isBlank l = [] := by
      rw [List.append_eq_nil_iff, List.map_eq_nil_iff, List.map_eq_nil_iff, hearlier.eq_nil_iff,
        hblank, List.forall_mem_append, List.forall_mem_singleton]
    refine ⟨hquiet, fun hall => hawaits.start (hnone.mpr hall), ?_⟩
    rintro ⟨l, hl, hne⟩
    exact (hawaits.pending fun hempty => hne (hnone.mp hempty l hl)).1
  · -- the closing parenthesis is in this line
    obtain ⟨hfirst, rfl⟩ := hat hk
    rw [List.map_nil, List.append_nil] at hlexemes
    exact (hwaits (by simpa using hfirst)).enter_last hform hpart hlexemes (by simpa using hfirst)
      hparse
  · -- behind the closing parenthesis there are only blank lines
    exact enter_of_blank (hblank.mp (hpast hk))

/-- A `let` over several lines, some of them blank and one with an open parenthesis in a literal: the
session asks for more behind the first of its lines and reports its value on the last. -/
theorem enter_lines_let :
    (((Session.new { maxDepth := 2 }).afterLines ⟨fun _ _ => .ok .nil⟩ false [[]]).enter
      ⟨fun _ _ => .ok .nil⟩ false (String.ofList " (let (x \"(\")".toList)).session.prompt = .more ∧
    Reports .unbounded false
      ((Interpreter.new { maxDepth := 2 }).run ⟨fun _ _ => .ok .nil⟩
        "\n (let (x \"(\")\n\t\n  (concat x x)) \n")
      (((Session.new { maxDepth := 2 }).afterLines ⟨fun _ _ => .ok .nil⟩ false
        [[], " (let (x \"(\")".toList, ['\t']]).enter ⟨fun _ _ => .ok .nil⟩ false
          (String.ofList "  (concat x x)) ".toList)) := by
  obtain ⟨form, hparse⟩ : ∃ form,
      Form.parse 2 "\n (let (x \"(\")\n\t\n  (concat x x)) \n" = .ok form := by
    have hok : (Form.parse 2 "\n (let (x \"(\")\n\t\n  (concat x x)) \n").toBool = true := by
      decide +kernel
    cases hresult : Form.parse 2 "\n (let (x \"(\")\n\t\n  (concat x x)) \n" with
    | ok form => exact ⟨form, rfl⟩
    | error e => simp [hresult, Except.toBool] at hok
  obtain ⟨-, close, hclose, -, -, hreplies⟩ := enter_lines ⟨fun _ _ => .ok .nil⟩ false
    (s := .new { maxDepth := 2 }) rfl hparse (by decide +kernel) (by decide +kernel)
  have hline : close.start.line = 3 := by
    have hlast : (Scanner.ofText "\n (let (x \"(\")\n\t\n  (concat x x)) \n").drain.1.getLast?.map
        (fun t => t.start.line) = some 3 := by decide +kernel
    rw [hclose] at hlast
    exact Option.some.inj hlast
  have hbegun := hreplies [[]] " (let (x \"(\")".toList
    [['\t'], "  (concat x x)) ".toList, []] (by decide +kernel)
  have hdone := hreplies [[], " (let (x \"(\")".toList, ['\t']] "  (concat x x)) ".toList [[]]
    (by decide +kernel)
  refine ⟨(hbegun.1 ?_).2.2 ⟨" (let (x \"(\")".toList, by simp, by decide⟩, hdone.2.1 ?_⟩
  · rw [hline]
    decide
  · rw [hline]
    rfl

/-- A form whose only call fails with an error of the host that says that a text is unbalanced: when
it is entered, the error is not printed, and the session keeps the form and asks for more. -/
theorem enter_lines_unbalanced :
    let e : SourceError := ⟨.unbalanced, "unbalanced parenthesis", "(", 0, 1, 1⟩
    let host : Host := ⟨fun _ _ => .error (.error (.source e))⟩
    let s : Session :=
      { interpreter := (Interpreter.new {}).define "f" (.native (.host ⟨"f", "<f>"⟩)) }
    s.pending = "" ∧
      Form.parse s.interpreter.settings.maxDepth "(f)" = .ok [.symbol "f"] ∧
      (∀ t ∈ (Scanner.ofText "(f)").drain.1, t.kind = .text → '\n' ∉ t.raw "(f)".toList) ∧
      (∀ line ∈ lines "(f)".toList, ¬ Command.IsReserved (trimWhere isBlank line)) ∧
      (s.interpreter.run host "(f)").outcome = .error (.error (.source e)) ∧
      let reply := s.enter host false "(f)"
      reply.output ≠ (Error.source e).report false ++ "\n" ∧
        reply.session.prompt = .more ∧ reply.session.pending = "(f)" := by
  intro e host s
  have hread : Form.drain s.interpreter.settings.maxDepth (.ofText "(f)") =
      ([[.symbol "f"]], none) := by
    rw [Form.drain_eq, Form.drain_eq]
    with_unfolding_all rfl
  have houtcome : (s.interpreter.run host "(f)").outcome = .error (.error (.source e)) := by
    rw [(s.interpreter.run_fields host "(f)").1, Interpreter.course, hread]
    with_unfolding_all rfl
  have henter : s.enter host false "(f)" =
      s.answer host.stack false "(f)" (s.interpreter.run host "(f)") :=
    (@enter_of_not_blank host false s "(f)".toList (by decide) (by decide)).trans rfl
  rw [answer_of_unbalanced houtcome rfl] at henter
  refine ⟨rfl, Form.parse_eq_ok_iff.mpr (Form.parseAll_eq_ok_iff.mpr hread), by decide +kernel,
    by decide +kernel, houtcome, ?_⟩
  dsimp only
  rw [henter]
  exact ⟨by simp, rfl, rfl⟩

end Session

end Lisplet
