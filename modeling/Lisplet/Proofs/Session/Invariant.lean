import Lisplet.Proofs.Form.Closing
import Lisplet.Proofs.Interpreter.Deepening
import Lisplet.Proofs.Session.Lines

/-!
# What holds of a session after every line

A session keeps its interpreter as it was new, whatever is entered. Beyond that it only keeps the
text of a program that may go on: one that is unbalanced, and in which every form before the open
one has a value. Whenever such a program has ended with a value or an error, the session is a new one
again. A line is only broken off when it shows a value that is too deep for the stack of the host,
and then the session stays as it is.
-/

namespace Lisplet

open Text

/-- A line that a session takes for a command asks for help unless it begins with a word that ends
the session. -/
theorem Command.ofLine_of_isReserved {line : List Char}
    (h : IsReserved (trimWhere isBlank line)) :
    let word := (trimWhere isBlank line).takeWhile isWordChar
    ofLine (String.ofList line) = if word = "exit".toList then .exit
      else if word = "EOF".toList then .endOfInput else .help := by
  rw [ofLine, trim, String.toList_ofList]
  generalize trimWhere isBlank line = trimmed at h ⊢
  dsimp only
  rw [ofTrimmed, String.toList_ofList]
  split
  · simp [IsReserved] at h
  · next rest =>
    have hword : ('?' :: rest).takeWhile isWordChar = [] := List.takeWhile_cons_of_neg (by decide)
    rw [hword, if_neg (by decide), if_neg (by decide)]
  · next hmark =>
    have hhead : trimmed.head? ≠ some '?' := by
      cases trimmed with
      | nil => simp
      | cons c rest =>
        intro hc
        obtain rfl : c = '?' := Option.some.inj hc
        exact hmark rest rfl
    have hword := h.resolve_left hhead
    simp only [List.mem_cons, List.not_mem_nil, or_false] at hword
    obtain hhelp | hexit | hend := hword
    · rw [if_pos hhelp, hhelp, if_neg (by decide), if_neg (by decide)]
    · rw [hexit, if_neg (by decide), if_pos rfl, if_pos rfl]
    · rw [hend, if_neg (by decide), if_neg (by decide), if_pos rfl, if_neg (by decide), if_pos rfl]

namespace Session

variable {host : Host} {colour : Bool} {settings : Settings} {s : Session}

/-- A command changes nothing in a session. -/
theorem session_enter_of_isReserved (host : Host) (colour : Bool) (s : Session) {line : List Char}
    (h : Command.IsReserved (trimWhere isBlank line)) :
    (s.enter host colour (String.ofList line)).session = s ∧
      (s.enter host colour (String.ofList line)).fault = none := by
  rw [enter, Command.ofLine_of_isReserved h]
  split
  · exact ⟨rfl, rfl⟩
  · split
    · exact ⟨rfl, rfl⟩
    · exact ⟨rfl, rfl⟩

/-- A session ends on a line that begins with one of two words. -/
theorem stops_enter_iff {line : List Char} :
    (s.enter host colour (String.ofList line)).stops = true ↔
      (trimWhere isBlank line).takeWhile Command.isWordChar ∈ ["exit".toList, "EOF".toList] := by
  by_cases hreserved : Command.IsReserved (trimWhere isBlank line)
  · rw [enter, Command.ofLine_of_isReserved hreserved]
    split
    · next hexit => simp [obey, hexit]
    · next hexit =>
      split
      · next hend => simp [obey, hend]
      · next hend => exact iff_of_false (by simp [obey]) (by simp only [List.mem_cons, hexit, hend,
          List.not_mem_nil, or_false, not_false_eq_true])
  · have hword : (trimWhere isBlank line).takeWhile Command.isWordChar ∉
        ["exit".toList, "EOF".toList] :=
      fun hword => hreserved (Or.inr (List.mem_cons_of_mem _ hword))
    by_cases hblank : trimWhere isBlank line = []
    · rw [enter_of_blank hblank]
      exact iff_of_false (by simp) hword
    · rw [enter_of_not_blank hblank hreserved, enterProgram_eq, (reports_answer _ _ _).stops]
      exact iff_of_false (by simp) hword

/-- What a session that started as a new one keeps to: its interpreter is as it was, it asks for
more exactly if it has kept some text, and that is unbalanced behind forms that have values. -/
structure IsSettled (host : Host) (settings : Settings) (s : Session) : Prop where
  interpreter : s.interpreter = .new settings
  prompt : s.prompt = .more ↔ s.pending ≠ ""
  unbalanced : s.pending ≠ "" → Form.Unbalanced settings.maxDepth s.pending
  forms : s.pending ≠ "" → ∀ form ∈ (Form.drain settings.maxDepth (.ofText s.pending)).1,
    ∃ value, ((Evaluation.evaluate host settings Interpreter.root 0 (.list form)).account
      (Interpreter.new settings).environments).outcome = .ok value

/-- A new session has kept nothing. -/
theorem isSettled_new (host : Host) (settings : Settings) :
    (new settings).IsSettled host settings where
  interpreter := rfl
  prompt := by simp [new]
  unbalanced h := absurd rfl h
  forms h := absurd rfl h

/-- With nothing kept, a session is a new one. -/
theorem IsSettled.eq_new (h : s.IsSettled host settings) (hpending : s.pending = "") :
    s = new settings := by
  obtain ⟨hinterpreter, hprompt, -, -⟩ := h
  obtain ⟨interpreter, pending, prompt⟩ := s
  dsimp only at *
  cases prompt with
  | ready => rw [hinterpreter, hpending, new]
  | more => exact absurd hpending (hprompt.mp rfl)

/-- A reply that is broken off exactly if the stack of the host is exhausted. Then nothing is
printed, and the session is as before. -/
structure BreaksOffIf (exhausts : Prop) (s : Session) (r : Reply) : Prop where
  broken : exhausts → r.fault = some .exhausted ∧ r.output = "" ∧ r.session = s
  whole : ¬ exhausts → r.fault = none

/-- Program text that does not exhaust the stack is not broken off, and leaves a settled session
settled. -/
theorem IsSettled.answer (h : s.IsSettled host settings) (colour : Bool) {code : String}
    (hcode : code ≠ "") (hroom : ¬ (Interpreter.new settings).Exhausts host code) :
    let reply := s.answer host.stack colour code (s.interpreter.run host code)
    reply.fault = none ∧ reply.session.IsSettled host settings := by
  obtain ⟨hinterpreter, hfailure⟩ := Interpreter.run_new host settings code
  rw [Interpreter.Exhausts, not_or, not_exists] at hroom
  obtain ⟨hcalls, hvalue⟩ := hroom
  rw [h.interpreter]
  unfold Session.answer
  rw [hinterpreter]
  cases houtcome : ((Interpreter.new settings).run host code).outcome with
  | ok value =>
    have hdisplays : host.stack.displays value = true := by simpa [houtcome] using hvalue value
    rw [Except.bind, HostStack.shown_of_displays hdisplays]
    exact ⟨rfl, isSettled_new host settings⟩
  | error failure =>
    rw [Except.bind]
    obtain ⟨e, hread, rfl, hforms⟩ | ⟨e, rfl, -⟩ | rfl := hfailure failure houtcome
    · by_cases hkind : e.fault.kind = .unbalanced
      · have hunbalanced : isUnbalanced (.error (.source (e.within code))) = true := by
          rw [isUnbalanced, SyntaxError.within, hkind]
          rfl
        dsimp only
        rw [if_pos hunbalanced]
        refine ⟨rfl, rfl, by simpa using hcode, fun _ => ?_, fun _ => ?_⟩
        · exact Form.unbalanced_iff_drain.mpr ⟨e, hread, hkind⟩
        · exact (Course.failure_eq_none_iff_forall ..).mp hforms
      · have hbalanced : isUnbalanced (.error (.source (e.within code))) ≠ true := by
          simpa [isUnbalanced, SyntaxError.within] using hkind
        dsimp only
        rw [if_neg hbalanced]
        exact ⟨rfl, isSettled_new host settings⟩
    · exact ⟨rfl, isSettled_new host settings⟩
    · exact absurd houtcome hcalls

/-- Program text that exhausts the stack is broken off with nothing printed, and leaves a settled
session as it is. -/
theorem IsSettled.answer_of_exhausts (h : s.IsSettled host settings) (colour : Bool) {code : String}
    (hexhausts : (Interpreter.new settings).Exhausts host code) :
    let reply := s.answer host.stack colour code (s.interpreter.run host code)
    reply.fault = some .exhausted ∧ reply.output = "" ∧ reply.session = s := by
  obtain ⟨hinterpreter, -⟩ := Interpreter.run_new host settings code
  have hsame : { s with interpreter := Interpreter.new settings } = s := by rw [← h.interpreter]
  rw [h.interpreter, Session.answer, Interpreter.exhausts_iff.mp hexhausts, hinterpreter]
  exact ⟨rfl, rfl, hsame⟩

/-- Every line leaves a settled session settled. It is broken off if it is program text that shows a
value for which there is no room. -/
theorem IsSettled.enter (h : s.IsSettled host settings) (colour : Bool) (line : List Char) :
    let trimmed := trimWhere isBlank line
    let reply := s.enter host colour (String.ofList line)
    BreaksOffIf (trimmed ≠ [] ∧ ¬ Command.IsReserved trimmed ∧
        (Interpreter.new settings).Exhausts host (s.joined (String.ofList trimmed))) s reply ∧
      reply.session.IsSettled host settings := by
  dsimp only
  by_cases hreserved : Command.IsReserved (trimWhere isBlank line)
  · obtain ⟨hsession, hfault⟩ := session_enter_of_isReserved host colour s hreserved
    rw [hsession]
    exact ⟨⟨fun hprogram => absurd hreserved hprogram.2.1, fun _ => hfault⟩, h⟩
  by_cases hblank : trimWhere isBlank line = []
  · rw [enter_of_blank hblank]
    exact ⟨⟨fun hprogram => absurd hblank hprogram.1, fun _ => rfl⟩, h⟩
  rw [enter_of_not_blank hblank hreserved, enterProgram_eq]
  have hcode : s.joined (String.ofList (trimWhere isBlank line)) ≠ "" :=
    joined_ne_empty (by simpa using hblank)
  by_cases hexhausts : (Interpreter.new settings).Exhausts host
      (s.joined (String.ofList (trimWhere isBlank line)))
  · have hbroken := h.answer_of_exhausts colour hexhausts
    refine ⟨⟨fun _ => hbroken, fun hroom => absurd ⟨hblank, hreserved, hexhausts⟩ hroom⟩, ?_⟩
    rw [hbroken.2.2]
    exact h
  · obtain ⟨hfault, hsettled⟩ := h.answer colour hcode hexhausts
    exact ⟨⟨fun hprogram => absurd hprogram.2.2 hexhausts, fun _ => hfault⟩, hsettled⟩

/-- Lines leave a settled session settled. -/
theorem IsSettled.afterLines (h : s.IsSettled host settings) (colour : Bool)
    (lines : List (List Char)) : (s.afterLines host colour lines).IsSettled host settings := by
  induction lines generalizing s with
  | nil => exact h
  | cons line lines ih =>
    rw [afterLines_cons]
    exact ih (h.enter colour line).2

end Session

end Lisplet
