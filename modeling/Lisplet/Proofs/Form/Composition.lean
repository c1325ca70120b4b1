import Lisplet.Proofs.Form.Counting
import Lisplet.Proofs.Form.Pulls
import Lisplet.Proofs.Scanning.Concatenation

/-!
# Reading is compositional

A text whose forms can be read leaves no trace on what is read behind it: two texts put together
have the forms of the first and then those of the second, and an error in the second is the same
error further on. Within a text each form stands for itself, from its opening parenthesis to its
closing one.
-/

namespace Lisplet.Form

open Cursor (shiftedEnding endingOf yields_drain_ofText)
open Scanner (yields_behind yields_of_drain)

namespace Progress

/-- The same progress with other forms finished before. -/
def behind (before : List (List Value)) (p : Progress) : Progress :=
  ⟨p.finished ++ before, p.opened⟩

/-- A token is accepted wherever its text stands and whatever has been finished before. -/
theorem feed_behind (limit : Int) (before : List (List Value)) (p : Progress) (t : Token)
    (base : Position) :
    (p.behind before).feed limit (t.shiftedBy base) =
      match p.feed limit t with
      | .error e => .error (e.shiftedBy base)
      | .ok q => .ok (q.behind before) := by
  obtain ⟨finished, opened⟩ := p
  have hkind : (t.shiftedBy base).kind = t.kind := rfl
  have hlexeme : (t.shiftedBy base).lexeme = t.lexeme := rfl
  cases opened with
  | nil =>
    simp only [behind, feed, hkind]
    split
    · rfl
    · rfl
  | cons items waiting =>
    simp only [behind, feed, hlexeme]
    cases t.lexeme with
    | openParen =>
      dsimp only
      split
      · rfl
      · rfl
    | closeParen => cases waiting <;> rfl
    | text s => rfl
    | symbol name => rfl
    | number x => rfl

/-- Feeding the tokens of a text that stands behind another comes to the forms finished before and
those of the text, and to the error of the text at its shifted place. -/
theorem run_behind (limit : Int) (before : List (List Value)) (p : Progress) (base : Position)
    (ending : Except SyntaxError Position) (tokens : List Token) :
    (p.behind before).run limit (shiftedEnding base ending) (tokens.map (·.shiftedBy base)) =
      (before.reverse ++ (p.run limit ending tokens).1,
        (p.run limit ending tokens).2.map (·.shiftedBy base)) := by
  induction tokens generalizing p with
  | nil =>
    rw [List.map_nil, run, run]
    cases ending with
    | error e => simp [shiftedEnding, finish, behind]
    | ok here =>
      by_cases hopened : p.opened.isEmpty = true
      · simp [shiftedEnding, finish, behind, hopened]
      · simp [shiftedEnding, finish, behind, hopened, SyntaxError.shiftedBy_atPosition]
  | cons t rest ih =>
    rw [List.map_cons, run, run, feed_behind]
    cases p.feed limit t with
    | error e => simp [behind]
    | ok q => exact ih q

/-- Whether a token is accepted, and what it leads to, depends on its lexeme. -/
theorem feed_of_lexeme_eq {limit : Int} {p q : Progress} {t t' : Token}
    (hlexeme : t.lexeme = t'.lexeme) (h : p.feed limit t = .ok q) : p.feed limit t' = .ok q := by
  have hkind : t.kind = t'.kind := by rw [Token.kind, Token.kind, hlexeme]
  unfold feed at h ⊢
  split at h
  · split at h
    · next hopen => rw [if_pos (hkind ▸ hopen)]; exact h
    · cases h
  · rw [← hlexeme]
    split at h
    · split at h
      · cases h
      · next hlimit => rw [if_neg hlimit]; exact h
    · exact h
    · exact h

/-- Whether tokens are accepted, and what they lead to, depends on their lexemes. -/
theorem foldlM_feed_of_lexemes_eq {limit : Int} {p q : Progress} {tokens others : List Token}
    (hlexemes : tokens.map Token.lexeme = others.map Token.lexeme)
    (h : tokens.foldlM (feed limit) p = .ok q) : others.foldlM (feed limit) p = .ok q := by
  induction tokens generalizing others p with
  | nil =>
    obtain rfl := List.map_eq_nil_iff.mp hlexemes.symm
    exact h
  | cons t rest ih =>
    obtain ⟨t', rest', rfl, hlexeme, hrest⟩ := List.map_eq_cons_iff.mp hlexemes.symm
    obtain ⟨p', hfeed, hfed⟩ := foldlM_feed_cons.mp h
    exact foldlM_feed_cons.mpr ⟨p', feed_of_lexeme_eq hlexeme.symm hfeed, ih hrest.symm hfed⟩

/-- A token is accepted behind finished forms exactly when it is without them. -/
theorem feed_behind_eq_ok_iff {limit : Int} {before : List (List Value)} {p q : Progress}
    {t : Token} : (p.behind before).feed limit t = .ok q ↔
      ∃ p', p.feed limit t = .ok p' ∧ q = p'.behind before := by
  have hlexeme : (t.shiftedBy {}).lexeme = t.lexeme := rfl
  have hshifted : (p.behind before).feed limit t = .ok q ↔
      (p.behind before).feed limit (t.shiftedBy {}) = .ok q :=
    ⟨feed_of_lexeme_eq hlexeme.symm, feed_of_lexeme_eq hlexeme⟩
  rw [hshifted, feed_behind]
  cases p.feed limit t with
  | error e => simp
  | ok p' => simp [eq_comm]

/-- Tokens are accepted behind finished forms exactly when they are without them. -/
theorem foldlM_feed_behind_eq_ok_iff {limit : Int} {before : List (List Value)}
    {p q : Progress} {tokens : List Token} :
    tokens.foldlM (feed limit) (p.behind before) = .ok q ↔
      ∃ p', tokens.foldlM (feed limit) p = .ok p' ∧ q = p'.behind before := by
  induction tokens generalizing p with
  | nil => simp [pure, Except.pure, eq_comm]
  | cons t rest ih =>
    rw [foldlM_feed_cons]
    constructor
    · rintro ⟨r, hfeed, hrest⟩
      obtain ⟨p', hfirst, rfl⟩ := feed_behind_eq_ok_iff.mp hfeed
      obtain ⟨p'', hfed, hlast⟩ := ih.mp hrest
      exact ⟨p'', foldlM_feed_cons.mpr ⟨p', hfirst, hfed⟩, hlast⟩
    · rintro ⟨p'', hfed, hlast⟩
      obtain ⟨p', hfirst, hrest⟩ := foldlM_feed_cons.mp hfed
      exact ⟨_, feed_behind_eq_ok_iff.mpr ⟨p', hfirst, rfl⟩, ih.mpr ⟨p'', hrest, hlast⟩⟩

end Progress

/-- A text that spells the lexemes of tokens that are all accepted is read as what they lead to. -/
theorem drain_of_foldlM_feed {limit : Int} {text : String} {tokens : List Token} {q : Progress}
    (hspells : Cursor.Spells text.toList (tokens.map Token.lexeme))
    (hfed : tokens.foldlM (Progress.feed limit) {} = .ok q) :
    ∃ here, drain limit (.ofText text) = q.finish (.ok here) := by
  obtain ⟨found, hfound, here, hyields⟩ := hspells.exists_yields
  refine ⟨here, ?_⟩
  rw [drain_eq_run hyields,
    Progress.run_of_ok (Progress.foldlM_feed_of_lexemes_eq hfound.symm hfed)]

/-- Forms that are written out end with a closing parenthesis. -/
theorem getLast?_flatten (forms : List (List Value)) :
    ∀ lexeme ∈ (flatten forms).getLast?, lexeme = .closeParen := by
  induction forms using List.reverseRecOn with
  | nil => simp [flatten]
  | append_singleton forms form ih =>
    have hlist : flatten (forms ++ [form]) =
        flatten forms ++ .openParen :: form.flatMap Value.lexemes ++ [.closeParen] := by
      simp [flatten, Value.lexemes_list]
    rw [hlist, List.getLast?_concat]
    simp

/-- Tokens that forms are written out as do not end with an atom. -/
theorem WrittenAs.not_isAtom {forms : List (List Value)} {tokens : List Token}
    (h : WrittenAs forms (tokens.map Token.lexeme)) : ∀ t ∈ tokens.getLast?, ¬ t.IsAtom := by
  intro t ht hatom
  have hclose : t.lexeme = .closeParen := by
    refine getLast?_flatten forms _ ?_
    rw [h.flatten_eq, List.getLast?_map, Option.mem_def.mp ht]
    rfl
  simp [Token.IsAtom, Token.kind, hclose, Lexeme.kind] at hatom

/-- The forms of a text that can be read come before those of an addition, and an error in the
addition is the same further on. -/
theorem drain_append {limit : Int} {text : String} {forms : List (List Value)}
    (h : parseAll limit text = .ok forms) (more : String) :
    drain limit (.ofText (text ++ more)) = (forms ++ (drain limit (.ofText more)).1,
      (drain limit (.ofText more)).2.map (·.shiftedBy (.endOf text.toList))) := by
  rw [parseAll_eq_ok_iff] at h
  obtain ⟨⟨here, hending⟩, hwritten, -⟩ := (drain_eq_ok_iff (yields_drain_ofText text)).mp h
  have hscans : (Scanner.ofText text).drain.2.1 = none := by
    cases herror : (Scanner.ofText text).drain.2.1 with
    | none => rfl
    | some e => simp [herror, endingOf] at hending
  have hyields := yields_of_drain hscans
  -- the last token closes a list, so nothing that follows can go on with it
  have hboth := hyields.append_of_cut (fun t ht hatom => absurd hatom (hwritten.not_isAtom t ht))
    (yields_behind more (.endOf text.toList))
  rw [← Cursor.ofText_append] at hboth
  rw [drain_eq_run hyields, Progress.run_eq_ok_iff] at h
  rw [drain_eq_run hboth, Progress.run_append_of_ok h.2]
  have hrun := Progress.run_behind limit forms.reverse {} (.endOf text.toList)
    (endingOf (Scanner.ofText more).drain.2.1 (Scanner.ofText more).drain.2.2)
    (Scanner.ofText more).drain.1
  rw [List.reverse_reverse, ← drain_eq_run (yields_drain_ofText more)] at hrun
  exact hrun

/-- A form of a text with the two parentheses that it is read between. Asking for it goes from the
one to the other and keeps nothing that stands behind, and what stands between them is read as the
form by itself. -/
structure IsReadBetween (limit : Int) (text : String) (form : List Value) (opening closing : Token)
    (before behind : Scanner) : Prop where
  outcome : next limit before = ⟨.ok (some form), behind⟩
  reads : ∃ inner, before.Reads (opening :: (inner ++ [closing])) behind ∧
    (opening :: (inner ++ [closing])).map Token.lexeme = (Value.list form).lexemes
  pending : behind.pending = none
  offset : behind.position.offset = closing.start.offset + 1
  parses : parse limit (slice text opening.start.offset (closing.start.offset + 1)) = .ok form

/-- The characters from which the tokens of a form are read are read as the form by themselves. -/
theorem parse_slice {limit : Int} {text : String} {form : List Value} {p q : Cursor} {t : Token}
    {tokens : List Token} (hp : p.StandsIn text.toList) (hreads : p.Reads (t :: tokens) q)
    (hlexemes : (t :: tokens).map Token.lexeme = (Value.list form).lexemes)
    (hmem : form ∈ (drain limit (.ofText text)).1) :
    parse limit (slice text t.start.offset q.position.offset) = .ok form := by
  obtain ⟨raw, hstart, hrest, hoffset, hyields⟩ := hreads.exists_yields
  have hslice : slice text t.start.offset q.position.offset = String.ofList raw := by
    rw [slice, hoffset, Nat.add_sub_cancel_left, hstart, hp.skipBlanks.drop_offset, hrest,
      List.take_left]
  have hspells := Cursor.spells_of_yields hyields
  rw [hlexemes] at hspells
  rw [hslice]
  refine parse_of_spells ?_ ?_ (nesting_le_of_mem_drain hmem)
  · rwa [String.toList_ofList]
  · exact good_of_mem_drain isPlain_value (fun items => Value.isPlain_list.mpr) hmem

/-- Each form of a text is read from its opening parenthesis to its closing one. -/
theorem exists_isReadBetween {limit : Int} {text : String} {i : ℕ} {form : List Value}
    (h : (drain limit (.ofText text)).1[i]? = some form) :
    ∃ opening closing, IsReadBetween limit text form opening closing
      (pulled limit i (.ofText text)) (pulled limit (i + 1) (.ofText text)) := by
  have houtcome := next_pulled h
  obtain ⟨opening, closing, inner, hreads, hlexemes, hclose⟩ := exists_brackets_of_next houtcome
  obtain ⟨count, hcount⟩ := exists_after_pulled limit i (.ofText text)
  have hstands : (pulled limit i (.ofText text)).StandsAt ((Cursor.ofText text).after count) := by
    rw [hcount]
    exact (Scanner.standsAt_self text.toList {}).after count
  have hin := (Cursor.standsIn_ofText text).after count
  have hlastly := hreads
  rw [← List.cons_append] at hlastly
  obtain ⟨last, q, hq, hlast, hbehind, hfound, hcursor⟩ := hlastly.exists_last hstands
  obtain ⟨hpending, hoffset⟩ := Scanner.next_of_closeParen hq hlast hclose
  rw [hbehind] at hpending hoffset
  have hparses := parse_slice hin hcursor hlexemes (List.mem_of_getElem? h)
  rw [Cursor.offset_of_closeParen (Prod.ext hfound rfl) hclose] at hparses
  rw [pulled_succ]
  refine ⟨opening, closing, ?_, ⟨inner, hreads, hlexemes⟩, hpending, hoffset, hparses⟩
  rw [← houtcome]

/-- A text whose forms can be read and an addition have the forms of both, and the error of the
addition if it has one, further on by the text. Each form of a text is handed over when the scanner
is right behind its closing parenthesis, and what stands from its opening parenthesis to that one is
read as the form by itself. -/
theorem drain_append_and_isReadBetween (limit : Int) :
    (∀ text more forms, parseAll limit text = .ok forms →
      drain limit (.ofText (text ++ more)) = (forms ++ (drain limit (.ofText more)).1,
        (drain limit (.ofText more)).2.map (·.shiftedBy (.endOf text.toList)))) ∧
    ∀ text i form, (drain limit (.ofText text)).1[i]? = some form →
      ∃ opening closing, IsReadBetween limit text form opening closing
        (pulled limit i (.ofText text)) (pulled limit (i + 1) (.ofText text)) :=
  ⟨fun _ more _ h => drain_append h more, fun _ _ _ h => exists_isReadBetween h⟩

/-- A form on two lines is read although a list that is never closed follows right behind it, and
the end of the text is reported at the place counted on from the second line. -/
theorem drain_append_unclosed :
    parseAll 2 "(a\n (b))" = .ok [[.symbol "a", .list [.symbol "b"]]] ∧
      (drain 2 (.ofText ("(a\n (b))" ++ "(c"))).2 = some (.atPosition .unclosed ⟨10, 1, 7⟩) ∧
      ∃ opening closing, IsReadBetween 2 ("(a\n (b))" ++ "(c")
        [.symbol "a", .list [.symbol "b"]] opening closing
        (pulled 2 0 (.ofText ("(a\n (b))" ++ "(c")))
        (pulled 2 1 (.ofText ("(a\n (b))" ++ "(c"))) := by
  have hscans : (Scanner.ofText "(a\n (b))").drain.2.1 = none := by decide +kernel
  have hwritten : WrittenAs [[.symbol "a", .list [.symbol "b"]]]
      ((Scanner.ofText "(a\n (b))").drain.1.map Token.lexeme) :=
    ⟨by simp [Value.IsPlain, Value.Leaves, Value.AllLeaves], by decide +kernel⟩
  have hread : parseAll 2 "(a\n (b))" = .ok [[.symbol "a", .list [.symbol "b"]]] :=
    parseAll_of_writtenAs hscans hwritten (by simp [Value.nesting])
  have hboth := (drain_append_and_isReadBetween 2).1 _ "(c" _ hread
  have hopen : (drain 2 (.ofText "(c")).2 = some (.atPosition .unclosed ⟨2, 0, 2⟩) := by
    decide +kernel
  refine ⟨hread, ?_, (drain_append_and_isReadBetween 2).2 _ 0 _ ?_⟩
  · rw [hboth, hopen]
    decide +kernel
  · rw [hboth]
    rfl

end Lisplet.Form
