import Lisplet.Proofs.Error.Excerpt
import Lisplet.Proofs.Form.Blame

/-!
# Syntax errors point at the source

The line and column of every error that a text makes are those of one place in it: the start of the
token or the literal that is to blame, the character that is out of place, or the end of the text
when a token is missing there. A token that is to blame is the last that the reader has asked for. The excerpt of the error shows the line around that place, and unless
a token is missing the error lies over characters of the text that start with one that is not blank.
-/

namespace Lisplet

open Text

/-- The errors that a text makes: those of the requests for its tokens, also of requests behind one
that has failed, those of reading it as one form, and those of reading all its forms. -/
def Raises (limit : Int) (text : String) (e : SyntaxError) : Prop :=
  (∃ count, .error e ∈ (Scanner.ofText text).outcomes count) ∨
    Form.parse limit text = .error e ∨ Form.parseAll limit text = .error e

/-- Where reading a text as one form, or reading all its forms, leaves off with an error. -/
inductive LeavesOff (limit : Int) (text : String) (e : SyntaxError) : Scanner → Prop
  | parse (h : Form.parse limit text = .error e) :
    LeavesOff limit text e (Form.only limit (.ofText text)).scanner
  | parseAll (h : Form.parseAll limit text = .error e) :
    LeavesOff limit text e (Form.pulled limit
      ((Form.drain limit (.ofText text)).1.length + 1) (.ofText text))

/-- Whether a token is looked for at a place, behind the blanks there. -/
def IsSoughtAt (text : String) (place : Position) : Prop :=
  ∃ count, ((Cursor.ofText text).after count).skipBlanks.position = place

/-- What an error points at: the last token that has been asked for, a literal that is never closed,
a number that is no numeral, the character that a number runs into, or the end of the text. -/
inductive PointsAt (limit : Int) (text : String) : SyntaxError → Position → Prop
  | token {count : ℕ} {t : Token} {fault : SyntaxFault}
      (h : ((Scanner.ofText text).after count).next.outcome = .ok (some t))
      (hfault : fault.CanBlame t)
      (hlast : LeavesOff limit text (.atToken fault t) ((Scanner.ofText text).after (count + 1))) :
      PointsAt limit text (.atToken fault t) t.start
  | literal {place : Position} {rest : List Char} (hsought : IsSoughtAt text place)
      (h : text.toList.drop place.offset = '"' :: rest) (hopen : Cursor.literal? rest = none) :
      PointsAt limit text ⟨.unterminatedText, place.line, place.column, rest.length + 1⟩ place
  | number {place : Position} {raw rest : List Char} (hsought : IsSoughtAt text place)
      (h : text.toList.drop place.offset = raw ++ rest)
      (hstarts : Cursor.StartsNumber (raw ++ rest))
      (hraw : ∀ c ∈ raw, Scanner.isNumberChar c = true) (hends : Cursor.EndsAtom rest)
      (hread : Numeral.read? raw = none) :
      PointsAt limit text
        ⟨.malformedNumber (String.ofList raw), place.line, place.column, raw.length⟩ place
  | character {start place : Position} {raw rest : List Char} {c : Char}
      (hsought : IsSoughtAt text start) (h : text.toList.drop start.offset = raw ++ c :: rest)
      (hstarts : Cursor.StartsNumber (raw ++ c :: rest))
      (hraw : ∀ c ∈ raw, Scanner.isNumberChar c = true) (hplace : place = start.advanceOver raw)
      (hnumber : Scanner.isNumberChar c = false) (hends : Scanner.endsAtom c = false) :
      PointsAt limit text (.atPosition .unexpectedCharacter place) place
  | missing {place : Position} {fault : SyntaxFault} (hfault : fault.IsMissing)
      (hplace : place = .endOf text.toList) : PointsAt limit text (.atPosition fault place) place

namespace PointsAt

variable {limit : Int} {text : String} {e : SyntaxError} {place : Position}

/-- The line of an error is the one of the place that it points at. -/
theorem line_eq (h : PointsAt limit text e place) : e.line = place.line := by cases h <;> rfl

/-- The column of an error is the one of the place that it points at. -/
theorem column_eq (h : PointsAt limit text e place) : e.column = place.column := by cases h <;> rfl

end PointsAt

/-- Whether an error lies over the first characters of a text, the first of which is not blank. -/
def SyntaxError.LiesOver (e : SyntaxError) (rest : List Char) : Prop :=
  e.length ≤ rest.length ∧ ∃ c more, rest = c :: more ∧ isBlank c = false

/-- An error that points at a place in a text: at the end where a token is missing, and else at
characters that it lies over. -/
structure PointsInto (limit : Int) (text : String) (e : SyntaxError) (place : Position) :
    Prop where
  points : PointsAt limit text e place
  isIn : place.IsIn text.toList
  atEnd : e.fault.IsMissing → text.toList.drop place.offset = []
  solid : ¬ e.fault.IsMissing → e.LiesOver (text.toList.drop place.offset)

section

variable {limit : Int} {text : String} {e : SyntaxError} {p q : Cursor}

/-- A token found in a text that is out of place there points at where it starts. -/
theorem pointsInto_of_token (hp : p.StandsIn text.toList) {t : Token}
    (h : p.next = (.ok (some t), q)) {count : ℕ}
    (houtcome : ((Scanner.ofText text).after count).next.outcome = .ok (some t))
    {fault : SyntaxFault} (hfault : fault.CanBlame t)
    (hlast : LeavesOff limit text (.atToken fault t) ((Scanner.ofText text).after (count + 1))) :
    PointsInto limit text (.atToken fault t) t.start := by
  obtain ⟨raw, htakes⟩ := Cursor.exists_takes_of_next h
  have hrest : text.toList.drop t.start.offset = raw ++ q.rest := by
    rw [htakes.start, hp.skipBlanks.drop_offset, htakes.rest]
  have hstop := p.stopsRun_past_run isBlank
  rw [← Cursor.skipBlanks, htakes.rest] at hstop
  obtain ⟨c, inner, rfl⟩ := List.exists_cons_of_ne_nil htakes.nonempty
  rw [List.cons_append, stopsRun_cons] at hstop
  refine ⟨.token houtcome hfault hlast, ?_, fun hmissing => ?_, fun _ => ?_⟩
  · rw [htakes.start]
    exact hp.skipBlanks.isIn
  · cases fault with
    | expected wanted got =>
      cases got with
      | none => exact absurd hfault id
      | some got => exact absurd hmissing id
    | unclosed => exact absurd hfault id
    | _ => exact absurd hmissing id
  · rw [hrest]
    refine ⟨?_, c, inner ++ q.rest, rfl, hstop⟩
    rw [SyntaxError.atToken, htakes.length, List.length_append]
    exact Nat.le_add_right _ _

/-- A missing token points at the end of the text. -/
theorem pointsInto_of_none (hp : p.StandsIn text.toList) (h : p.next = (.ok none, q))
    {fault : SyntaxFault} (hfault : fault.IsMissing) :
    PointsInto limit text (.atPosition fault q.position) q.position := by
  have hq : q.StandsIn text.toList := by
    have hnext := hp.next
    rwa [h] at hnext
  have hrest := (Cursor.next_eq_none h).2
  refine ⟨.missing hfault ?_, hq.isIn, fun _ => ?_, fun hnone => absurd hfault hnone⟩
  · obtain ⟨before, hwhole, hbefore⟩ := hq
    rw [hrest, List.append_nil] at hwhole
    rw [hbefore, hwhole]
  · rw [hq.drop_offset, hrest]

/-- Where no atom ends, a character stands that is part of no number and ends none. -/
theorem exists_of_not_endsAtom {rest : List Char} (h : ¬ Cursor.EndsAtom rest) :
    ∃ c more, rest = c :: more ∧ Scanner.endsAtom c = false := by
  cases rest with
  | nil => exact absurd Cursor.endsAtom_nil h
  | cons c more =>
    rw [Cursor.endsAtom_cons, Bool.not_eq_true] at h
    exact ⟨c, more, rfl, h⟩

/-- Where scanning fails behind the blanks, it points at the literal or the number that starts
there, or at the character that the number runs into. -/
theorem exists_pointsInto_of_lexes (hp : p.StandsIn text.toList)
    (hsought : IsSoughtAt text p.position) (hstop : StopsRun isBlank p.rest)
    (h : Cursor.Lexes p (.error e, q)) : ∃ place, PointsInto limit text e place := by
  have hdrop := hp.drop_offset
  generalize hstep : (Except.error e, q) = step at h
  cases h with
  | finish h => cases hstep
  | openParen h => cases hstep
  | closeParen h => cases hstep
  | text h hliteral => cases hstep
  | @unterminated rest h hliteral =>
    cases hstep
    rw [h] at hdrop
    rw [h, List.length_cons]
    refine ⟨p.position, .literal hsought hdrop hliteral, hp.isIn, fun hnone => absurd hnone id,
      fun _ => ?_⟩
    rw [hdrop]
    exact ⟨Nat.le_refl _, '"', rest, rfl, by decide⟩
  | number h hraw hend hmatches => cases hstep
  | @malformed raw h hraw hend hmatches =>
    cases hstep
    have hbegins : raw <+: p.rest := hraw ▸ List.takeWhile_prefix _
    have hall : ∀ c ∈ raw, Scanner.isNumberChar c = true := fun c hc =>
      Cursor.of_mem_run (hraw ▸ hc)
    have hsplit := Cursor.rest_past hbegins
    obtain ⟨c, more, hfirst⟩ : ∃ c more, p.rest = c :: more := by
      refine List.exists_cons_of_ne_nil fun hnil => ?_
      rw [hnil] at h
      exact h
    have hread : Numeral.read? raw = none := by rw [Numeral.read?_eq, if_neg hmatches]
    refine ⟨p.position, .number hsought (hdrop.trans hsplit) (hsplit ▸ h) hall hend hread, hp.isIn,
      fun hnone => absurd hnone id, fun _ => ?_⟩
    rw [hdrop]
    exact ⟨hbegins.length_le, c, more, hfirst, by rwa [hfirst, stopsRun_cons] at hstop⟩
  | @unexpected raw h hraw hend =>
    cases hstep
    have hbegins : raw <+: p.rest := hraw ▸ List.takeWhile_prefix _
    have hall : ∀ c ∈ raw, Scanner.isNumberChar c = true := fun c hc =>
      Cursor.of_mem_run (hraw ▸ hc)
    have hsplit := Cursor.rest_past hbegins
    have hnumber := p.stopsRun_past_run Scanner.isNumberChar
    obtain ⟨c, more, hfirst, hends⟩ := exists_of_not_endsAtom hend
    rw [hraw, hfirst, stopsRun_cons] at hnumber
    have hbehind : (p.past raw).StandsIn text.toList := hp.of_append hsplit rfl
    rw [hfirst] at hsplit
    refine ⟨(p.past raw).position, .character hsought (hdrop.trans hsplit) (hsplit ▸ h)
      hall rfl hnumber hends, hbehind.isIn,
      fun hnone => absurd hnone id, fun _ => ?_⟩
    rw [hbehind.drop_offset, hfirst]
    have hblank : isBlank c = false := (Bool.or_eq_false_iff.mp hends).1
    exact ⟨by simp [SyntaxError.atPosition], c, more, rfl, hblank⟩
  | symbol h hopen hclose hquote hnumber hraw => cases hstep

/-- A request for a token that fails points at the literal or the character that it fails at. -/
theorem exists_pointsInto_of_error (hp : p.StandsIn text.toList)
    (hsought : IsSoughtAt text p.skipBlanks.position) (h : p.next = (.error e, q)) :
    ∃ place, PointsInto limit text e place := by
  have hlexes := Cursor.lexes_lexeme p.skipBlanks
  rw [← Cursor.next, h] at hlexes
  exact exists_pointsInto_of_lexes hp.skipBlanks hsought (p.stopsRun_past_run isBlank) hlexes

end

/-- All that an error tells about the text it is raised for. Its line and column are those of one
place in the text and of no other, which is what the error points at, and which is at the end of the
text just when a token is missing. The excerpt shows the place, and the character that stands there
is not blank and has as many characters from it on as the error is long. -/
structure Locates (limit : Int) (text : String) (e : SyntaxError) (place : Position) : Prop where
  isIn : place.IsIn text.toList
  line : e.line = place.line
  column : e.column = place.column
  unique : ∀ other : Position, other.IsIn text.toList → other.line = e.line →
    other.column = e.column → other = place
  points : PointsAt limit text e place
  atEnd : place.offset = text.length ↔ e.fault.IsMissing
  shows : e.Shows text place
  solid : place.offset < text.length → place.offset + e.length ≤ text.length ∧
    ∃ c, text.toList[place.offset]? = some c ∧ isBlank c = false ∧
      (e.within text).sourceLine.toList[e.column]? = some c

section

variable {limit : Int} {text : String} {e : SyntaxError} {place : Position}

/-- What an error points into a text at is what it locates. -/
theorem PointsInto.locates (h : PointsInto limit text e place) : Locates limit text e place := by
  have hline := h.points.line_eq
  have hcolumn := h.points.column_eq
  have hshows := SyntaxError.shows_of_isIn h.isIn hline hcolumn
  have hlength : text.toList.length = text.length := String.length_toList
  have hsize := List.length_drop (i := place.offset) (l := text.toList)
  have hoffset := h.isIn.offset
  refine ⟨h.isIn, hline, hcolumn, ?_, h.points, ⟨fun hend => ?_, fun hmissing => ?_⟩, hshows,
    fun hbefore => ?_⟩
  · intro other hother hsame hsame'
    exact hother.unique h.isIn (hsame.trans hline) (hsame'.trans hcolumn)
  · by_contra hpresent
    obtain ⟨-, c, more, hrest, -⟩ := h.solid hpresent
    rw [hrest, List.length_cons] at hsize
    omega
  · rw [h.atEnd hmissing, List.length_nil] at hsize
    omega
  · have hpresent : ¬ e.fault.IsMissing := fun hmissing => by
      rw [h.atEnd hmissing, List.length_nil] at hsize
      omega
    obtain ⟨hlong, c, more, hrest, hblank⟩ := h.solid hpresent
    have hchar : text.toList[place.offset]? = some c := by
      rw [← List.head?_drop, hrest]
      rfl
    have hfeed : c ≠ '\n' := by
      rintro rfl
      cases hblank
    exact ⟨by omega, c, hchar, hblank, hshows.character c hchar hfeed⟩

/-- Reading a text leaves off with an error at the last request for a token, which leads to the
error. -/
theorem LeavesOff.foundLast {s : Scanner} (h : LeavesOff limit text e s) :
    FoundLast (.ofText text) e s := by
  cases h with
  | parse h => exact Form.foundLast_only h
  | parseAll h => exact Form.foundLast_drain (Form.parseAll_eq_error_iff.mp h)

/-- What one of the requests for the tokens of a text fails with stands in the text where it
points. -/
theorem exists_pointsInto_of_scanning {count : ℕ}
    (h : ((Scanner.ofText text).after count).next.outcome = .error e) :
    ∃ place, PointsInto limit text e place := by
  have hstart : (Scanner.ofText text).StandsAt (Cursor.ofText text) :=
    Scanner.standsAt_self text.toList {}
  have hcursor := (Scanner.next_agrees (hstart.after count)).1.symm.trans h
  exact exists_pointsInto_of_error ((Cursor.standsIn_ofText text).after count) ⟨count, rfl⟩
    (Prod.ext hcursor rfl)

/-- What is to blame for the error that reading a text leaves off with stands in the text where the
error points. -/
theorem LeavesOff.exists_pointsInto {s : Scanner} (hlast : LeavesOff limit text e s) :
    ∃ place, PointsInto limit text e place := by
  obtain ⟨count, h, rfl⟩ := hlast.foundLast
  have hstart : (Scanner.ofText text).StandsAt (Cursor.ofText text) :=
    Scanner.standsAt_self text.toList {}
  obtain ⟨houtcome, hnext⟩ := Scanner.next_agrees (hstart.after count)
  have hin := (Cursor.standsIn_ofText text).after count
  cases h with
  | scanning h => exact exists_pointsInto_of_scanning h
  | token h hfault =>
    have hcursor := houtcome.symm.trans h
    exact ⟨_, pointsInto_of_token hin (Prod.ext hcursor rfl) h hfault hlast⟩
  | missing h hfault =>
    have hcursor : ((Cursor.ofText text).after count).next =
        (.ok none, ((Cursor.ofText text).after count).next.2) :=
      Prod.ext (houtcome.symm.trans h) rfl
    rw [Scanner.position_eq_of_standsAt hnext (Cursor.next_eq_none hcursor).2]
    exact ⟨_, pointsInto_of_none hin hcursor hfault⟩

/-- Every error that a text makes locates a place in it. -/
theorem Raises.exists_locates (h : Raises limit text e) : ∃ place, Locates limit text e place := by
  have hpoints : ∃ place, PointsInto limit text e place := by
    obtain ⟨count, hmem⟩ | hparse | hparse := h
    · obtain ⟨i, -, hi⟩ := Scanner.mem_outcomes.mp hmem
      exact exists_pointsInto_of_scanning hi
    · exact (LeavesOff.parse hparse).exists_pointsInto
    · exact (LeavesOff.parseAll hparse).exists_pointsInto
  exact hpoints.imp fun _ hplace => hplace.locates

end

/-- A number in the second line that runs into a letter makes an error at the letter. -/
theorem exists_locates_number_into_letter :
    Raises 2 "(a\n 1x" ⟨.unexpectedCharacter, 1, 2, 1⟩ ∧
      Locates 2 "(a\n 1x" ⟨.unexpectedCharacter, 1, 2, 1⟩ ⟨5, 1, 2⟩ := by
  have hraises : Raises 2 "(a\n 1x" ⟨.unexpectedCharacter, 1, 2, 1⟩ :=
    Or.inr (Or.inr (Form.parseAll_eq_error_iff.mpr (by decide +kernel)))
  have hin : Position.IsIn "(a\n 1x".toList ⟨5, 1, 2⟩ := ⟨by decide, by decide, by decide⟩
  obtain ⟨place, hlocates⟩ := hraises.exists_locates
  obtain rfl := hlocates.unique _ hin rfl rfl
  exact ⟨hraises, hlocates⟩

end Lisplet
