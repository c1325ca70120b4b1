import Lisplet.Proofs.Scanning.Spelled

/-!
# What tokens can hold

The tokens of a text hold any text, but only names that scan as one symbol and only doubles that
are numbers. The other way round, each such lexeme is what some text scans as: an infinity is the
value of a numeral that is too large.
-/

namespace Lisplet

namespace Numeral

/-- The value of a numeral is a number, though it may be infinite. -/
theorem value_ne_nan (n : Numeral) : n.value ≠ .nan := by
  rw [value, Binary64.ofDecimal_eq_nearest, Binary64.nearest]
  split <;> simp

/-- A numeral of either sign whose exponent is beyond every double. -/
def overflowing (negative : Bool) : Spelling where
  sign := if negative then ['-'] else []
  whole := ['1']
  fraction := []
  exponent := ['e', '9', '9', '9']
  isSign := by cases negative <;> simp
  isWhole := ⟨by simp, by simp⟩
  isFraction := Or.inl rfl
  isExponent := Or.inr ⟨'e', [], ['9', '9', '9'], rfl, Or.inl rfl, Or.inl rfl, by simp, by simp⟩

/-- A numeral beyond every double denotes the infinity of its sign. -/
theorem value_overflowing (negative : Bool) :
    (overflowing negative).numeral.value = .infinite negative := by
  cases negative <;> rfl

end Numeral

namespace Cursor

open Text

/-- A lexeme that a text can be scanned as. -/
def CanScan : Lexeme → Prop
  | .symbol name => IsName name.toList
  | .number x => x ≠ .nan
  | _ => True

/-- What is scanned as a symbol is a name. -/
theorem isName_of_run {p : Cursor} {c : Char} {rest : List Char} (h : p.rest = c :: rest)
    (hblank : isBlank c = false) (hopen : c ≠ '(') (hclose : c ≠ ')') (hquote : c ≠ '"')
    (hnumber : ¬ StartsNumber p.rest) : IsName (p.run fun c => !Scanner.endsAtom c) := by
  have hends : Scanner.endsAtom c = false := by simp [Scanner.endsAtom, hblank, hclose]
  have hrun : (p.run fun c => !Scanner.endsAtom c) =
      c :: rest.takeWhile fun c => !Scanner.endsAtom c := by
    simp [run, h, hends]
  rw [h] at hnumber
  refine ⟨by simp [hrun], fun d hd => ?_, ?_, ?_⟩
  · simpa [Scanner.endsAtom] using of_mem_run hd
  · rw [hrun]
    rintro d hd
    obtain rfl : c = d := Option.some.inj hd
    refine ⟨hopen, hquote, ?_⟩
    rw [← Bool.not_eq_true]
    exact fun hdigit => hnumber (Or.inl hdigit)
  · rw [hrun]
    intro tail htail d hd
    obtain ⟨rfl, rfl⟩ := List.cons.inj htail
    have hhead : d ∈ rest.head? := by
      obtain ⟨more, hmore⟩ := List.takeWhile_prefix (l := rest) fun c => !Scanner.endsAtom c
      rw [← hmore, List.head?_append, Option.mem_def.mp hd]
      rfl
    rw [← Bool.not_eq_true]
    exact fun hdigit => hnumber (Or.inr ⟨rfl, d, hhead, hdigit⟩)

/-- The token at a cursor that stands at no blank is one that a text can be scanned as. -/
theorem Lexes.canScan {p : Cursor} {step : Step} (h : Lexes p step) (hstop : StopsRun isBlank p.rest)
    {t : Token} (htoken : step.1 = .ok (some t)) : CanScan t.lexeme := by
  cases h with
  | symbol h hopen hclose hquote hnumber hraw =>
    cases htoken
    rw [h] at hstop
    have hname := isName_of_run h (stopsRun_cons.mp hstop) hopen hclose hquote hnumber
    rw [hraw] at hname
    simpa [CanScan] using hname
  | number h hraw hend hmatches =>
    cases htoken
    exact Numeral.value_ne_nan _
  | finish h => cases htoken
  | openParen h => cases htoken; trivial
  | closeParen h => cases htoken; trivial
  | text h hliteral => cases htoken; trivial
  | unterminated h hliteral => cases htoken
  | malformed h hraw hend hmatches => cases htoken
  | unexpected h hraw hend => cases htoken

/-- The tokens of a text are ones that a text can be scanned as. -/
theorem Yields.canScan {p : Cursor} {tokens : List Token} {ending : Except SyntaxError Position}
    (h : p.Yields tokens ending) : ∀ t ∈ tokens, CanScan t.lexeme := by
  induction h with
  | done h => simp
  | failed h => simp
  | @token p q t tokens ending h rest ih =>
    have hlexes := lexes_lexeme p.skipBlanks
    rw [← next, h] at hlexes
    exact List.forall_mem_cons.mpr ⟨hlexes.canScan (p.stopsRun_past_run isBlank) rfl, ih⟩

/-- Some text spells each lexeme that a text can be scanned as. -/
theorem exists_spells (lexeme : Lexeme) (h : CanScan lexeme) (hopen : lexeme ≠ .openParen)
    (hclose : lexeme ≠ .closeParen) : ∃ part, Spells part [lexeme] := by
  cases lexeme with
  | openParen => exact absurd rfl hopen
  | closeParen => exact absurd rfl hclose
  | text s => exact ⟨_, spells_literal s⟩
  | symbol name => exact ⟨_, spells_name h⟩
  | number x =>
    cases x with
    | nan => exact absurd rfl h
    | finite negative units hunits => exact ⟨_, spells_double rfl⟩
    | infinite negative =>
      have hspells := spells_numeral (Numeral.overflowing negative)
      rw [Numeral.value_overflowing] at hspells
      exact ⟨_, hspells⟩

end Cursor

end Lisplet
