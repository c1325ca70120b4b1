import Lisplet.Proofs.Form.Composition
import Lisplet.Proofs.Interpreter.New
import Lisplet.Proofs.Session.Lines

/-!
# Forms that are evaluated again

A session runs the text that it keeps from its beginning whenever a line is added to it, and a run
evaluates every form that is complete before it meets the open one. So a form that is complete on a
line on which another one is left open is evaluated on that line and again on every line up to the
one that closes the text. The native functions are called once for every form exactly when no such
form calls any.
-/

namespace Lisplet

open Text

/-- The native calls that evaluating a form by itself makes in the root environment. -/
def Interpreter.callsOf (host : Host) (i : Interpreter) (form : List Value) :
    List (Native × List Value) :=
  ((Evaluation.evaluate host i.settings root 0 (.list form)).account i.environments).calls

/-- Forms that all have values in the root environment, for which the host has room. -/
def Interpreter.HaveValues (host : Host) (i : Interpreter) (forms : List (List Value)) : Prop :=
  ∀ form ∈ forms, ∃ value, ((Evaluation.evaluate host i.settings root 0 (.list form)).account
    i.environments).outcome = .ok value ∧ host.stack.displays value = true

/-- A program whose forms all have values makes the calls of these forms and leaves the interpreter
as it is. It comes to the error that ends its forms, or to a value that can be shown. -/
theorem Interpreter.run_of_haveValues (host : Host) (i : Interpreter) (code : String)
    (h : i.HaveValues host (Form.drain i.settings.maxDepth (.ofText code)).1) :
    Event.calls (i.run host code).events =
      (Form.drain i.settings.maxDepth (.ofText code)).1.flatMap (i.callsOf host) ∧
    (i.run host code).interpreter = i ∧
    (∀ e, (Form.drain i.settings.maxDepth (.ofText code)).2 = some e →
      (i.run host code).outcome = .error (.error (.source (e.within code)))) ∧
    ((Form.drain i.settings.maxDepth (.ofText code)).2 = none →
      ∃ value, (i.run host code).outcome = .ok value ∧ host.stack.displays value = true) := by
  obtain ⟨houtcome, hevents, hinterpreter⟩ := i.run_fields host code
  have hends : ∀ form ∈ (Form.drain i.settings.maxDepth (.ofText code)).1, ∃ value,
      ((Evaluation.evaluate host i.settings root 0 (.list form)).account i.environments).outcome =
        .ok value := fun form hform => (h form hform).imp fun _ hvalue => hvalue.1
  have hfailure : (i.course host code).failure = none :=
    (Course.failure_eq_none_iff_forall host i.settings root i.environments _).mpr hends
  refine ⟨?_, ?_, fun e he => ?_, fun hnone => ?_⟩
  · rw [← Event.calls_filter, hevents]
    exact Course.calls_ofForms host i.settings root i.environments hends
  · rw [hinterpreter, course, Course.environments_ofForms]
  · simp [houtcome, Course.outcome, hfailure, he]
  · refine ⟨(i.course host code).values.getLast?.getD .nil, ?_, ?_⟩
    · simp [houtcome, Course.outcome, hfailure, hnone]
    · cases hlast : (i.course host code).values.getLast? with
      | none => exact HostStack.displays_nil
      | some value =>
        obtain ⟨form, hform, hends⟩ := Course.exists_account_of_value host i.settings root _
          (List.mem_of_getLast? hlast)
        obtain ⟨value', hvalue', hdisplays⟩ := h form hform
        cases hends.symm.trans hvalue'
        exact hdisplays

namespace Session

variable {host : Host} {colour : Bool} {s s₀ : Session}

/-- The native calls that a session makes on lines that it takes one by one. -/
def callsOver (host : Host) (colour : Bool) (s : Session) :
    List (List Char) → List (Native × List Value)
  | [] => []
  | line :: rest =>
    let reply := s.enter host colour (String.ofList line)
    Event.calls reply.events ++ reply.session.callsOver host colour rest

/-- What there is to read in lines that are all ended: the forms that are complete, and the error
behind them. -/
def readLines (limit : Int) (lines : List (List Char)) : List (List Value) × Option SyntaxError :=
  Form.drain limit (.ofText (String.ofList (lines.flatMap (· ++ ['\n']))))

/-- The forms that a line completes behind other lines. -/
def completedOn (limit : Int) (before : List (List Char)) (line : List Char) :
    List (List Value) :=
  (readLines limit (before ++ [line])).1.drop (readLines limit before).1.length

/-- Lines at the end of which a form is open. -/
def LeavesOpen (limit : Int) (lines : List (List Char)) : Prop :=
  ∃ e, (readLines limit lines).2 = some e ∧ e.fault = .unclosed

/-- A session that has taken lines in which all is accepted. It has settled some forms, and the text
that it keeps has led to some progress since: an open list and the forms complete before it. When
nothing is open it keeps nothing. -/
structure HasTaken (s₀ : Session) (past : List (List Char)) (settled : List (List Value))
    (q : Form.Progress) (s : Session) : Prop where
  interpreter : s.interpreter = s₀.interpreter
  taken : ∃ tokens, Layout 0 past tokens ∧
    tokens.foldlM (Form.Progress.feed s₀.interpreter.settings.maxDepth) {} =
      .ok (q.behind settled)
  closed : q.opened = [] → s.pending = "" ∧ q = {}
  kept : q.opened ≠ [] → s.pending ≠ "" ∧ ∃ tokens : List Token,
    Cursor.Spells s.pending.toList (tokens.map Token.lexeme) ∧
    tokens.foldlM (Form.Progress.feed s₀.interpreter.settings.maxDepth) {} = .ok q

/-- Lines on which nothing is repeated behind others: a form that is complete on a line on which
another one is left open makes no native call. -/
def RepeatsNoCalls (host : Host) (i : Interpreter) (past lines : List (List Char)) : Prop :=
  ∀ before line after, lines = before ++ line :: after →
    LeavesOpen i.settings.maxDepth (past ++ before ++ [line]) →
    ∀ form ∈ completedOn i.settings.maxDepth (past ++ before) line, i.callsOf host form = []

/-- Nothing is repeated on a line and those behind it if nothing is on the line and on them. -/
theorem repeatsNoCalls_cons {i : Interpreter} {past rest : List (List Char)} {line : List Char} :
    RepeatsNoCalls host i past (line :: rest) ↔
      (LeavesOpen i.settings.maxDepth (past ++ [line]) →
        ∀ form ∈ completedOn i.settings.maxDepth past line, i.callsOf host form = []) ∧
      RepeatsNoCalls host i (past ++ [line]) rest := by
  constructor
  · intro h
    refine ⟨?_, fun before other after hrest => ?_⟩
    · simpa using h [] line rest rfl
    · rw [List.append_assoc past]
      exact h (line :: before) other after (by rw [hrest, List.cons_append])
  · rintro ⟨hline, hrest⟩ before other after hsplit
    obtain ⟨rfl, hcons⟩ | ⟨before', rfl, hcons⟩ := List.cons_eq_append_iff.mp hsplit
    · obtain ⟨rfl, rfl⟩ := List.cons_eq_cons.mp hcons
      simpa using hline
    · have hlater := hrest before' other after hcons
      rwa [List.append_assoc past] at hlater

namespace HasTaken

variable {past : List (List Char)} {settled : List (List Value)} {q q' : Form.Progress}
  {line : List Char} {first : List Token}

/-- A session that keeps no text has taken nothing. -/
theorem refl (hready : s.pending = "") : HasTaken s [] [] {} s where
  interpreter := rfl
  taken := ⟨[], .nil, rfl⟩
  closed _ := ⟨hready, rfl⟩
  kept h := absurd rfl h

/-- What has been taken can be read in the lines. -/
theorem readLines_eq (h : HasTaken s₀ past settled q s) :
    (readLines s₀.interpreter.settings.maxDepth past).1 = (q.finished ++ settled).reverse ∧
    (LeavesOpen s₀.interpreter.settings.maxDepth past ↔ q.opened ≠ []) := by
  obtain ⟨tokens, hlayout, hfed⟩ := h.taken
  obtain ⟨here, hread⟩ := Form.drain_of_foldlM_feed
    (by rw [String.toList_ofList]; exact hlayout.spells) hfed
  rw [LeavesOpen, readLines, hread, Form.Progress.finish]
  refine ⟨rfl, ?_⟩
  cases hopened : q.opened with
  | nil => simp [Form.Progress.behind, hopened]
  | cons items waiting => simp [Form.Progress.behind, hopened, SyntaxError.atPosition]

/-- The text that a session keeps, joined with a line, spells tokens that are all accepted and lead
where the line leads. -/
theorem exists_joined (h : HasTaken s₀ past settled q s)
    (hline : Cursor.Spells line (first.map Token.lexeme))
    (hfed : first.foldlM (Form.Progress.feed s₀.interpreter.settings.maxDepth) q = .ok q') :
    ∃ tokens : List Token,
      Cursor.Spells (s.joined (String.ofList line)).toList (tokens.map Token.lexeme) ∧
      tokens.foldlM (Form.Progress.feed s₀.interpreter.settings.maxDepth) {} = .ok q' := by
  by_cases hopened : q.opened = []
  · obtain ⟨hpending, rfl⟩ := h.closed hopened
    have htext : (s.joined (String.ofList line)).toList = line := by simp [joined, hpending]
    exact ⟨first, by rwa [htext], hfed⟩
  · obtain ⟨hpending, tokens, hspells, hkept⟩ := h.kept hopened
    have htext : (s.joined (String.ofList line)).toList = s.pending.toList ++ '\n' :: line := by
      simp [joined, hpending]
    refine ⟨tokens ++ first, ?_, Form.Progress.foldlM_feed_append.mpr ⟨q, hkept, hfed⟩⟩
    rw [htext, List.map_append]
    exact hspells.separated rfl hline

/-- Lines that have been taken, and one more in which all is accepted. -/
theorem exists_layout (h : HasTaken s₀ past settled q s)
    (hline : Layout past.length [line] first)
    (hfed : first.foldlM (Form.Progress.feed s₀.interpreter.settings.maxDepth) q = .ok q') :
    ∃ tokens, Layout 0 (past ++ [line]) tokens ∧
      tokens.foldlM (Form.Progress.feed s₀.interpreter.settings.maxDepth) {} =
        .ok (q'.behind settled) := by
  obtain ⟨tokens, hlayout, htaken⟩ := h.taken
  refine ⟨tokens ++ first, hlayout.append (by rwa [Nat.zero_add]), ?_⟩
  exact Form.Progress.foldlM_feed_append.mpr
    ⟨_, htaken, Form.Progress.foldlM_feed_behind_eq_ok_iff.mpr ⟨q', hfed, rfl⟩⟩

/-- A line that is not blank is answered with a run of the text kept and the line. The run makes the
calls of all the forms that are complete in them, those of earlier lines included, and if a form is
open at its end they are all kept. -/
theorem enter (h : HasTaken s₀ past settled q s) (colour : Bool)
    (hline : Layout past.length [line] first) (hne : trimWhere isBlank line ≠ [])
    (hreserved : ¬ Command.IsReserved (trimWhere isBlank line))
    (hfed : first.foldlM (Form.Progress.feed s₀.interpreter.settings.maxDepth) q = .ok q')
    (hvalues : s₀.interpreter.HaveValues host q'.finished) :
    Event.calls (s.enter host colour (String.ofList line)).events =
        q'.finished.reverse.flatMap (s₀.interpreter.callsOf host) ∧
      ∃ settled' q'', HasTaken s₀ (past ++ [line]) settled' q''
          (s.enter host colour (String.ofList line)).session ∧
        q''.behind settled' = q'.behind settled ∧
        q''.finished = if q'.opened = [] then [] else q'.finished := by
  have hpart : Cursor.Spells (trimWhere isBlank line) (first.map Token.lexeme) := by
    cases hline with
    | cons spells blank start rest =>
      cases rest
      simpa using spells
  have hlayout := h.exists_layout hline hfed
  obtain ⟨tokens, hspells, htokens⟩ := h.exists_joined hpart hfed
  obtain ⟨here, hread⟩ := Form.drain_of_foldlM_feed hspells htokens
  have hcode : s.joined (String.ofList (trimWhere isBlank line)) ≠ "" :=
    joined_ne_empty (by simpa using hne)
  rw [enter_of_not_blank hne hreserved, enterProgram_eq, h.interpreter]
  generalize s.joined (String.ofList (trimWhere isBlank line)) = code at *
  obtain ⟨hcalls, hkept, herror, hvalue⟩ := s₀.interpreter.run_of_haveValues host code (by
    rw [hread]
    exact fun form hform => hvalues form (List.mem_reverse.mp hform))
  rw [hread] at hcalls herror hvalue
  by_cases hopened : q'.opened = []
  · -- all that has been kept is settled
    obtain ⟨value, houtcome, hdisplays⟩ := hvalue (by simp [Form.Progress.finish, hopened])
    rw [answer, houtcome, Except.bind, HostStack.shown_of_displays hdisplays]
    refine ⟨hcalls, q'.finished ++ settled, {}, ⟨hkept, ?_, fun _ => ⟨rfl, rfl⟩, ?_⟩, ?_, ?_⟩
    · simpa [Form.Progress.behind, hopened] using hlayout
    · exact fun hne => absurd rfl hne
    · simp [Form.Progress.behind, hopened]
    · rw [if_pos hopened]
  · -- the text is kept, with the forms that are complete in it
    have houtcome := herror (.atPosition .unclosed here) (by simp [Form.Progress.finish, hopened])
    rw [answer_of_unbalanced houtcome rfl]
    refine ⟨hcalls, settled, q',
      ⟨hkept, hlayout, fun hclosed => absurd hclosed hopened, ?_⟩, rfl, ?_⟩
    · exact fun _ => ⟨hcode, tokens, hspells, htokens⟩
    · rw [if_neg hopened]

/-- A line completes the forms that have been finished on it, and leaves a form open if a list is
open behind it. -/
theorem completedOn_eq (h : HasTaken s₀ past settled q s) {s' : Session} {q'' : Form.Progress}
    {settled' new : List (List Value)} (hafter : HasTaken s₀ (past ++ [line]) settled' q'' s')
    (hsame : q''.behind settled' = q'.behind settled) (hnew : new ++ q.finished = q'.finished) :
    completedOn s₀.interpreter.settings.maxDepth past line = new.reverse ∧
      (LeavesOpen s₀.interpreter.settings.maxDepth (past ++ [line]) ↔ q'.opened ≠ []) := by
  obtain ⟨hfinished, hopened⟩ := Form.Progress.mk.inj hsame
  obtain ⟨hread, hleaves⟩ := hafter.readLines_eq
  have hreverse : (new ++ (q.finished ++ settled)).reverse =
      (q.finished ++ settled).reverse ++ new.reverse := List.reverse_append
  rw [completedOn, hread, h.readLines_eq.1, hfinished, ← hnew, List.append_assoc, hreverse,
    List.drop_left, hleaves, hopened]
  exact ⟨rfl, Iff.rfl⟩

/-- What is made once is part of what is made with something before it, and all of it exactly if
there is nothing before it. -/
theorem sublist_and_eq_iff {α : Type} {kept new made once : List α} (h : once.Sublist made) :
    (new ++ once).Sublist (kept ++ new ++ made) ∧
      (kept ++ new ++ made = new ++ once ↔ kept = [] ∧ made = once) := by
  rw [List.append_assoc]
  refine ⟨(h.append_left new).trans (List.sublist_append_right kept _), fun heq => ?_, ?_⟩
  · have hlength := congrArg List.length heq
    simp only [List.length_append] at hlength
    have hle := h.length_le
    exact ⟨List.length_eq_zero_iff.mp (by omega), (h.eq_of_length (by omega)).symm⟩
  · rintro ⟨rfl, rfl⟩
    rfl

/-- Lines that bring everything that is open to an end make at least the calls of the forms that
they complete, and no others exactly if no form that is complete in the text kept makes any and
nothing is repeated on them. -/
theorem callsOver (h : HasTaken s₀ past settled q s) {n : ℕ} {rest : List (List Char)}
    {tokens : List Token} (hlayout : Layout n rest tokens) (hn : n = past.length)
    (hreserved : ∀ line ∈ rest, ¬ Command.IsReserved (trimWhere isBlank line))
    {finished : List (List Value)}
    (hfed : tokens.foldlM (Form.Progress.feed s₀.interpreter.settings.maxDepth)
      (q.behind settled) = .ok ⟨finished, []⟩)
    (hvalues : s₀.interpreter.HaveValues host finished) :
    ∃ later, finished.reverse = (q.finished ++ settled).reverse ++ later ∧
      (later.flatMap (s₀.interpreter.callsOf host)).Sublist (s.callsOver host colour rest) ∧
      (s.callsOver host colour rest = later.flatMap (s₀.interpreter.callsOf host) ↔
        (∀ form ∈ q.finished, s₀.interpreter.callsOf host form = []) ∧
          RepeatsNoCalls host s₀.interpreter past rest) := by
  induction hlayout generalizing past settled q s with
  | nil =>
    have hdone : q.behind settled = ⟨finished, []⟩ := Except.ok.inj hfed
    obtain rfl : q = {} := (h.closed (congrArg Form.Progress.opened hdone)).2
    obtain rfl : settled = finished := congrArg Form.Progress.finished hdone
    exact ⟨[], by simp, .slnil, by simp [Session.callsOver, RepeatsNoCalls]⟩
  | @cons n line rest first others spells blank start hrest ih =>
    obtain ⟨hline, hothers⟩ := List.forall_mem_cons.mp hreserved
    obtain ⟨p, hfirst, hlast⟩ := Form.Progress.foldlM_feed_append.mp hfed
    obtain ⟨q', hq', rfl⟩ := Form.Progress.foldlM_feed_behind_eq_ok_iff.mp hfirst
    have hhere : Layout past.length [line] first := by
      have hsingle := Layout.cons spells blank start .nil
      rwa [List.append_nil, hn] at hsingle
    have hcount : n + 1 = (past ++ [line]).length := by simp [hn]
    obtain ⟨new, hnew⟩ := Form.Progress.finished_suffix_foldlM hq'
    rw [repeatsNoCalls_cons]
    by_cases hempty : trimWhere isBlank line = []
    · -- nothing happens on a blank line
      obtain rfl := blank.mpr hempty
      obtain rfl : q = q' := Except.ok.inj hq'
      obtain rfl : new = [] := List.append_left_eq_self.mp hnew
      have hafter : HasTaken s₀ (past ++ [line]) settled q s :=
        ⟨h.interpreter, h.exists_layout hhere hq', h.closed, h.kept⟩
      obtain ⟨hcompleted, -⟩ := h.completedOn_eq hafter rfl hnew
      obtain ⟨later, hlater, hsub, hiff⟩ := ih hafter hcount hothers hlast
      rw [Session.callsOver, enter_of_blank hempty, hcompleted]
      exact ⟨later, hlater, hsub, hiff.trans (by simp)⟩
    · have hvalues' : s₀.interpreter.HaveValues host q'.finished := fun form hform =>
        hvalues form ((Form.Progress.finished_suffix_foldlM hlast).subset
          (List.mem_append_left settled hform))
      obtain ⟨hcalls, settled', q'', hafter, hsame, hkept⟩ :=
        h.enter colour hhere hempty hline hq' hvalues'
      obtain ⟨hcompleted, hleaves⟩ := h.completedOn_eq hafter hsame hnew
      obtain ⟨later, hlater, hsub, hiff⟩ := ih hafter hcount hothers (hsame ▸ hlast)
      have hfinished : (q''.finished ++ settled').reverse =
          (q.finished ++ settled).reverse ++ new.reverse := by
        rw [(Form.Progress.mk.inj hsame).1, ← hnew, List.append_assoc, List.reverse_append]
      rw [← hnew, List.reverse_append, List.flatMap_append] at hcalls
      obtain ⟨hmore, hexact⟩ := sublist_and_eq_iff hsub
      rw [Session.callsOver, hcalls, hcompleted, hleaves]
      refine ⟨new.reverse ++ later, ?_, ?_, ?_⟩
      · rw [hlater, hfinished, List.append_assoc]
      · rw [List.flatMap_append]
        exact hmore
      · rw [List.flatMap_append, hexact, hiff, List.flatMap_eq_nil_iff, hkept, ← hnew]
        simp only [List.mem_reverse]
        by_cases hopened : q'.opened = []
        · simp [hopened]
        · rw [if_neg hopened, List.forall_mem_append]
          constructor
          · rintro ⟨hold, ⟨hcompleting, -⟩, hrest⟩
            exact ⟨hold, fun _ => hcompleting, hrest⟩
          · rintro ⟨hold, hcompleting, hrest⟩
            exact ⟨hold, ⟨hcompleting hopened, hold⟩, hrest⟩

end HasTaken

/-- A session that takes the lines of a text whose forms all have values that can be displayed makes
at least the native calls of each form once, in order. It makes no others exactly if no form that is
complete on a line on which another one is left open makes any: such a form is evaluated again. -/
theorem callsOver_lines (host : Host) (colour : Bool) {s : Session} (hready : s.pending = "")
    {text : String} {forms : List (List Value)}
    (hparse : Form.parseAll s.interpreter.settings.maxDepth text = .ok forms)
    (hvalues : s.interpreter.HaveValues host forms)
    (htexts : ∀ t ∈ (Scanner.ofText text).drain.1, t.kind = .text → '\n' ∉ t.raw text.toList)
    (hcommands : ∀ line ∈ lines text.toList, ¬ Command.IsReserved (trimWhere isBlank line)) :
    (forms.flatMap (s.interpreter.callsOf host)).Sublist
        (s.callsOver host colour (lines text.toList)) ∧
      (s.callsOver host colour (lines text.toList) =
          forms.flatMap (s.interpreter.callsOf host) ↔
        ∀ before line after, lines text.toList = before ++ line :: after →
          LeavesOpen s.interpreter.settings.maxDepth (before ++ [line]) →
          ∀ form ∈ completedOn s.interpreter.settings.maxDepth before line,
            s.interpreter.callsOf host form = []) := by
  have hyields := Cursor.yields_drain_ofText text
  rw [Form.parseAll_eq_ok_iff, Form.drain_eq_run hyields, Form.Progress.run_eq_ok_iff] at hparse
  obtain ⟨⟨here, hending⟩, hfed⟩ := hparse
  rw [hending] at hyields
  have hin : Cursor.In text.toList ⟨text.toList, {}⟩ := rfl
  have hlayout := layout_of_yields hin hyields htexts
  have hall : s.interpreter.HaveValues host forms.reverse := fun form hform =>
    hvalues form (List.mem_reverse.mp hform)
  obtain ⟨later, hlater, hsub, hiff⟩ :=
    (HasTaken.refl hready).callsOver hlayout rfl hcommands hfed hall
  obtain rfl : forms = later := by simpa using hlater
  exact ⟨hsub, hiff.trans (by simp [RepeatsNoCalls])⟩

/-! ## A form that is evaluated twice -/

/-- Whatever a program has come to, the answer has the events of its run. -/
theorem events_answer (stack : HostStack) (code : String) (run : Run) :
    (s.answer stack colour code run).events = run.events := by
  unfold answer
  cases run.outcome.bind stack.shown with
  | ok text => rfl
  | error failure =>
    dsimp only
    split
    · rfl
    · cases failure <;> rfl

/-- A function of the host, to be seen in the calls that are made. -/
def note : Native := .host ⟨"note", "<note>"⟩

/-- A host whose functions give their arguments back. -/
def echo : Host := ⟨fun _ args => .ok (.list args)⟩

/-- A new session in which the function has a name besides the builtin ones. -/
def noting : Session := { interpreter := (Interpreter.new {}).define "note" (.native note) }

/-- Two forms that call the function once each. -/
def notes : List (List Value) := [[.symbol "note", .text "a"], [.symbol "note", .text "b"]]

/-- The function gives both forms a value. -/
theorem haveValues_notes : noting.interpreter.HaveValues echo notes := by
  refine List.forall_mem_cons.mpr ⟨⟨.list [.text "a"], ?_, rfl⟩,
    List.forall_mem_singleton.mpr ⟨.list [.text "b"], ?_, rfl⟩⟩
  · with_unfolding_all rfl
  · with_unfolding_all rfl

/-- Each of the forms calls the function on its own text. -/
theorem flatMap_callsOf_notes : notes.flatMap (noting.interpreter.callsOf echo) =
    [(note, [.text "a"]), (note, [.text "b"])] := by
  with_unfolding_all rfl

/-- With each form begun on a line of its own, the function is called once for each, although the
second takes two lines. -/
theorem callsOver_lines_notes :
    noting.pending = "" ∧
      Form.parseAll noting.interpreter.settings.maxDepth "(note \"a\")\n(note\n\"b\")" =
        .ok notes ∧
      noting.interpreter.HaveValues echo notes ∧
      (∀ t ∈ (Scanner.ofText "(note \"a\")\n(note\n\"b\")").drain.1, t.kind = .text →
        '\n' ∉ t.raw "(note \"a\")\n(note\n\"b\")".toList) ∧
      (∀ line ∈ lines "(note \"a\")\n(note\n\"b\")".toList,
        ¬ Command.IsReserved (trimWhere isBlank line)) ∧
      noting.callsOver echo false (lines "(note \"a\")\n(note\n\"b\")".toList) =
        [(note, [.text "a"]), (note, [.text "b"])] := by
  have hread : Form.drain noting.interpreter.settings.maxDepth
      (.ofText "(note \"a\")\n(note\n\"b\")") = (notes, none) := by
    rw [Form.drain_eq, Form.drain_eq, Form.drain_eq]
    with_unfolding_all rfl
  have hparse := Form.parseAll_eq_ok_iff.mpr hread
  have htexts : ∀ t ∈ (Scanner.ofText "(note \"a\")\n(note\n\"b\")").drain.1, t.kind = .text →
      '\n' ∉ t.raw "(note \"a\")\n(note\n\"b\")".toList := by decide +kernel
  have hcommands : ∀ line ∈ lines "(note \"a\")\n(note\n\"b\")".toList,
      ¬ Command.IsReserved (trimWhere isBlank line) := by decide +kernel
  obtain ⟨-, hiff⟩ := callsOver_lines echo false rfl hparse haveValues_notes htexts hcommands
  refine ⟨rfl, hparse, haveValues_notes, htexts, hcommands,
    (hiff.mpr ?_).trans flatMap_callsOf_notes⟩
  have hlines : lines "(note \"a\")\n(note\n\"b\")".toList =
      ["(note \"a\")".toList, "(note".toList, "\"b\")".toList] := by decide
  have hfirst : readLines noting.interpreter.settings.maxDepth ["(note \"a\")".toList] =
      ([[.symbol "note", .text "a"]], none) := by
    rw [readLines, Form.drain_eq, Form.drain_eq]
    with_unfolding_all rfl
  have hsecond : readLines noting.interpreter.settings.maxDepth
      ["(note \"a\")".toList, "(note".toList] =
      ([[.symbol "note", .text "a"]], some (.atPosition .unclosed ⟨17, 2, 0⟩)) := by
    rw [readLines, Form.drain_eq, Form.drain_eq]
    with_unfolding_all rfl
  have hthird : readLines noting.interpreter.settings.maxDepth
      ["(note \"a\")".toList, "(note".toList, "\"b\")".toList] = (notes, none) := by
    rw [readLines, Form.drain_eq, Form.drain_eq, Form.drain_eq]
    with_unfolding_all rfl
  have hrepeats : RepeatsNoCalls echo noting.interpreter []
      ["(note \"a\")".toList, "(note".toList, "\"b\")".toList] := by
    refine repeatsNoCalls_cons.mpr ⟨?_, repeatsNoCalls_cons.mpr ⟨?_, repeatsNoCalls_cons.mpr
      ⟨?_, fun before line after hnone => by simp at hnone⟩⟩⟩
    · -- the first line ends behind its form
      rintro ⟨e, he, -⟩
      cases (congrArg Prod.snd hfirst).symm.trans he
    · -- the second line completes no form
      intro _ form hform
      have hnone : completedOn noting.interpreter.settings.maxDepth ["(note \"a\")".toList]
          "(note".toList = [] := by
        rw [completedOn, List.singleton_append, hfirst, hsecond]
        rfl
      exact absurd (hnone ▸ hform) List.not_mem_nil
    · rintro ⟨e, he, -⟩
      cases (congrArg Prod.snd hthird).symm.trans he
  rw [hlines]
  exact hrepeats

/-- With the second form begun on the line of the first, the function is called twice for the first
form: once on that line, and once more on the line that completes the second. -/
theorem callsOver_lines_repeated :
    noting.pending = "" ∧
      Form.parseAll noting.interpreter.settings.maxDepth "(note \"a\") (note\n\"b\")" =
        .ok notes ∧
      noting.interpreter.HaveValues echo notes ∧
      (∀ t ∈ (Scanner.ofText "(note \"a\") (note\n\"b\")").drain.1, t.kind = .text →
        '\n' ∉ t.raw "(note \"a\") (note\n\"b\")".toList) ∧
      (∀ line ∈ lines "(note \"a\") (note\n\"b\")".toList,
        ¬ Command.IsReserved (trimWhere isBlank line)) ∧
      noting.callsOver echo false (lines "(note \"a\") (note\n\"b\")".toList) =
        [(note, [.text "a"]), (note, [.text "a"]), (note, [.text "b"])] ∧
      noting.callsOver echo false (lines "(note \"a\") (note\n\"b\")".toList) ≠
        notes.flatMap (noting.interpreter.callsOf echo) := by
  have hread : Form.drain noting.interpreter.settings.maxDepth
      (.ofText "(note \"a\") (note\n\"b\")") = (notes, none) := by
    rw [Form.drain_eq, Form.drain_eq, Form.drain_eq]
    with_unfolding_all rfl
  have hbegun : Form.drain noting.interpreter.settings.maxDepth (.ofText "(note \"a\") (note") =
      ([[.symbol "note", .text "a"]], some (.atPosition .unclosed ⟨16, 0, 16⟩)) := by
    rw [Form.drain_eq, Form.drain_eq]
    with_unfolding_all rfl
  have hmade : noting.callsOver echo false (lines "(note \"a\") (note\n\"b\")".toList) =
      [(note, [.text "a"]), (note, [.text "a"]), (note, [.text "b"])] := by
    obtain ⟨hcalls, hkept, herror, -⟩ :=
      noting.interpreter.run_of_haveValues echo "(note \"a\") (note" (by
        rw [hbegun]
        exact List.forall_mem_singleton.mpr (haveValues_notes _ List.mem_cons_self))
    obtain ⟨hcalls', -⟩ :=
      noting.interpreter.run_of_haveValues echo "(note \"a\") (note\n\"b\")" (by
        rw [hread]
        exact haveValues_notes)
    have houtcome := herror _ (congrArg Prod.snd hbegun)
    have hlines : lines "(note \"a\") (note\n\"b\")".toList =
        ["(note \"a\") (note".toList, "\"b\")".toList] := by decide
    let kept : Session := ⟨noting.interpreter, "(note \"a\") (note", .more⟩
    have hfirst : noting.enter echo false (String.ofList "(note \"a\") (note".toList) =
        noting.answer .unbounded false "(note \"a\") (note"
          (noting.interpreter.run echo "(note \"a\") (note") :=
      (enter_of_not_blank (by decide) (by decide)).trans rfl
    have hsecond : kept.enter echo false (String.ofList "\"b\")".toList) =
        kept.answer .unbounded false "(note \"a\") (note\n\"b\")"
          (noting.interpreter.run echo "(note \"a\") (note\n\"b\")") :=
      (enter_of_not_blank (by decide) (by decide)).trans rfl
    rw [hlines, callsOver, callsOver, callsOver, hfirst, answer_of_unbalanced houtcome rfl, hkept]
    dsimp only
    rw [hsecond, events_answer, hcalls, hcalls', hbegun, hread]
    with_unfolding_all rfl
  refine ⟨rfl, Form.parseAll_eq_ok_iff.mpr hread, haveValues_notes, by decide +kernel,
    by decide +kernel, hmade, fun heq => ?_⟩
  rw [hmade, flatMap_callsOf_notes] at heq
  exact absurd (congrArg List.length heq) (by decide)

end Session

end Lisplet
