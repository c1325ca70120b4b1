import Lisplet.Proofs.Numeral.Written
import Lisplet.Proofs.Scanning.Extension
import Lisplet.Value.Source

/-!
# Texts that spell lexemes

A text spells lexemes when the scanner yields them for it wherever it stands, as long as an atom
may end behind it. Literals, names and numerals spell themselves, and texts put next to one another
with a blank between them, or between parentheses, spell their lexemes one after the other.
-/

namespace Lisplet.Cursor

open Text

/-- A text that scans as some lexemes wherever it stands before the end of an atom. -/
def Spells (part : List Char) (lexemes : List Lexeme) : Prop :=
  ∀ rest position, EndsAtom rest → ∃ tokens : List Token, tokens.map Token.lexeme = lexemes ∧
    ∀ others ending, Yields ⟨rest, position.advanceOver part⟩ others ending →
      Yields ⟨part ++ rest, position⟩ (tokens ++ others) ending

/-- A text that spells lexemes scans as them when nothing else stands around it. -/
theorem Spells.exists_yields {text : String} {lexemes : List Lexeme}
    (h : Spells text.toList lexemes) : ∃ tokens : List Token, tokens.map Token.lexeme = lexemes ∧
      ∃ here, (ofText text).Yields tokens (.ok here) := by
  obtain ⟨tokens, htokens, hyields⟩ := h [] {} endsAtom_nil
  have hwhole := hyields _ _ (yields_nil _)
  rw [List.append_nil, List.append_nil] at hwhole
  exact ⟨tokens, htokens, _, hwhole⟩

/-- A text that is one token wherever it stands before the end of an atom spells its lexeme. -/
theorem spells_of_lexes {part : List Char} {lexeme : Lexeme}
    (hstop : ∀ rest, EndsAtom rest → StopsRun isBlank (part ++ rest))
    (hlexes : ∀ rest position, EndsAtom rest →
      Lexes ⟨part ++ rest, position⟩ (token ⟨part ++ rest, position⟩ lexeme part)) :
    Spells part [lexeme] := by
  intro rest position hrest
  refine ⟨[⟨lexeme, position, part.length⟩], rfl, fun others ending hothers => ?_⟩
  have hnext := next_of_lexes (hstop rest hrest) (hlexes rest position hrest)
  rw [token, past, List.drop_left] at hnext
  exact .token hnext hothers

/-- No text at all spells nothing. -/
theorem spells_nil : Spells [] [] := by
  intro rest position _
  exact ⟨[], rfl, fun others ending hothers => hothers⟩

/-- Two texts with a blank between them spell the lexemes of both. -/
theorem Spells.separated {part more : List Char} {lexemes others : List Lexeme}
    (h : Spells part lexemes) {blank : Char} (hblank : isBlank blank = true)
    (hmore : Spells more others) : Spells (part ++ blank :: more) (lexemes ++ others) := by
  intro rest position hrest
  have hends : EndsAtom (blank :: (more ++ rest)) :=
    endsAtom_cons.mpr (by simp [Scanner.endsAtom, hblank])
  obtain ⟨first, hfirst, hyields⟩ := h (blank :: (more ++ rest)) position hends
  obtain ⟨second, hsecond, hyields'⟩ :=
    hmore rest ((position.advanceOver part).advanceOver [blank]) hrest
  refine ⟨first ++ second, by rw [List.map_append, hfirst, hsecond], ?_⟩
  intro tokens ending htokens
  rw [Position.advanceOver_append, ← List.singleton_append, Position.advanceOver_append] at htokens
  have hbehind := yields_blanks (List.forall_mem_singleton.mpr hblank)
    (hyields' tokens ending htokens)
  rw [List.append_assoc, List.append_assoc, List.cons_append]
  exact hyields _ ending hbehind

/-- A text in parentheses spells its lexemes between those of the parentheses. -/
theorem Spells.parenthesized {part : List Char} {lexemes : List Lexeme} (h : Spells part lexemes) :
    Spells ('(' :: (part ++ [')'])) (.openParen :: (lexemes ++ [.closeParen])) := by
  intro rest position _
  have hclose : EndsAtom (')' :: rest) := endsAtom_cons.mpr (by decide)
  obtain ⟨inner, hinner, hyields⟩ := h (')' :: rest) (position.advance '(') hclose
  refine ⟨⟨.openParen, position, 1⟩ :: (inner ++
    [⟨.closeParen, (position.advance '(').advanceOver part, 1⟩]), by simp [hinner], ?_⟩
  intro tokens ending htokens
  rw [Position.advanceOver_cons, Position.advanceOver_append] at htokens
  have hbehind := Yields.token (next_closeParen rest _) htokens
  have hwhole := Yields.token (next_openParen (part ++ ')' :: rest) position)
    (hyields _ ending hbehind)
  simpa using hwhole

/-- The characters of a literal are read up to its end as those it stands for. -/
theorem literal?_literalChars (content rest : List Char) :
    literal? (Value.literalChars content ++ '"' :: rest) =
      some (Value.literalChars content ++ ['"'], content) := by
  induction content with
  | nil => rw [Value.literalChars, List.nil_append, literal?_quote, List.nil_append]
  | cons c content ih =>
    rw [Value.literalChars]
    split
    · rw [List.cons_append, List.cons_append, literal?_backslash, ih, Option.map_some,
        List.cons_append, List.cons_append]
    · next hplain =>
      rw [not_or] at hplain
      rw [List.cons_append, literal?_cons hplain.1 hplain.2, ih, Option.map_some,
        List.cons_append]

/-- A literal spells its text. -/
theorem spells_literal (s : String) : Spells (Value.literal s).toList [.text s] := by
  rw [Value.literal, String.toList_ofList]
  apply spells_of_lexes
  · intro rest _
    exact stopsRun_cons.mpr (by decide)
  · intro rest position _
    have hliteral := literal?_literalChars s.toList rest
    have hlexes := Lexes.text (p := ⟨'"' :: (Value.literalChars s.toList ++ '"' :: rest), position⟩)
      rfl hliteral
    rw [String.ofList_toList] at hlexes
    simpa using hlexes

/-- A name that reads as one symbol: it holds no blank and no closing parenthesis, and starts as
nothing else does. -/
structure IsName (name : List Char) : Prop where
  nonempty : name ≠ []
  unbroken : ∀ c ∈ name, isBlank c = false ∧ c ≠ ')'
  start : ∀ c ∈ name.head?, c ≠ '(' ∧ c ≠ '"' ∧ c.isDigit = false
  sign : ∀ rest, name = '-' :: rest → ∀ c ∈ rest.head?, c.isDigit = false

/-- A name starts no number. -/
theorem IsName.not_startsNumber {name : List Char} (h : IsName name) : ¬ StartsNumber name := by
  cases name with
  | nil => exact fun hstarts => hstarts
  | cons c rest =>
    rintro (hc | ⟨rfl, d, hd, hdigit⟩)
    · have hstart := (h.start c rfl).2.2
      rw [hc] at hstart
      cases hstart
    · have hsign := h.sign rest rfl d hd
      rw [hdigit] at hsign
      cases hsign

/-- A name spells itself. -/
theorem spells_name {name : String} (h : IsName name.toList) :
    Spells name.toList [.symbol name] := by
  have hnumber := h.not_startsNumber
  cases hname : name.toList with
  | nil => exact absurd hname h.nonempty
  | cons c rest =>
    rw [hname] at h hnumber
    have hstart := h.start c rfl
    have hbreak := h.unbroken c List.mem_cons_self
    apply spells_of_lexes
    · intro _ _
      exact stopsRun_cons.mpr hbreak.1
    · intro more position hmore
      have hrun : run ⟨c :: rest ++ more, position⟩ (fun c => !Scanner.endsAtom c) = c :: rest := by
        apply takeWhile_append_of_stopsRun _ hmore.stopsRun_symbol
        intro d hd
        simpa [Scanner.endsAtom] using h.unbroken d hd
      have hlexes := Lexes.symbol (p := ⟨c :: rest ++ more, position⟩) rfl hstart.1 hbreak.2
        hstart.2.1 (not_startsNumber_append hnumber fun _ => hmore) hrun
      rw [← hname, String.ofList_toList] at hlexes
      rw [← hname]
      exact hlexes

/-- A small letter is no blank, no digit and none of the marks that mean something. -/
theorem plain_of_isLower {c : Char} (h : c.isLower = true) :
    isBlank c = false ∧ c.isDigit = false ∧ c ∉ ['(', ')', '"', '-'] := by
  have hbounds : (97 ≤ c.val && c.val ≤ 122) = true := h
  have hrange : 97 ≤ c.toNat ∧ c.toNat ≤ 122 := by
    simpa [UInt32.le_iff_toNat_le] using hbounds
  refine ⟨?_, ?_, fun hmark => ?_⟩
  · simp only [isBlank, Ranges.has, blankRanges, List.any_cons, List.any_nil]
    simp
    omega
  · have hval : c.val.toNat = c.toNat := rfl
    simp only [Char.isDigit, ge_iff_le, UInt32.le_iff_toNat_le, hval]
    simp
    omega
  · simp only [List.mem_cons, List.not_mem_nil, or_false] at hmark
    obtain rfl | rfl | rfl | rfl := hmark <;> simp at hrange

/-- A word of small letters is a name. -/
theorem isName_of_isLower {name : List Char} (hne : name ≠ [])
    (h : name.all Char.isLower = true) : IsName name := by
  have hplain := fun c hc => plain_of_isLower (List.all_eq_true.mp h c hc)
  refine ⟨hne, fun c hc => ?_, fun c hc => ?_, ?_⟩
  · obtain ⟨hblank, -, hmark⟩ := hplain c hc
    exact ⟨hblank, fun heq => hmark (by simp [heq])⟩
  · obtain ⟨-, hdigit, hmark⟩ := hplain c (List.mem_of_mem_head? hc)
    exact ⟨fun heq => hmark (by simp [heq]), fun heq => hmark (by simp [heq]), hdigit⟩
  · rintro rest rfl
    exact absurd (by simp) (hplain '-' List.mem_cons_self).2.2

/-- A digit may stand in a number. -/
theorem isNumberChar_of_isDigit {c : Char} (h : c.isDigit = true) :
    Scanner.isNumberChar c = true := by
  simp [Scanner.isNumberChar, h]

/-- The text of a numeral consists of number characters. -/
theorem isNumberChar_of_mem_text (p : Numeral.Spelling) {c : Char} (hc : c ∈ p.text) :
    Scanner.isNumberChar c = true := by
  rw [Numeral.Spelling.text, List.mem_append, List.mem_append, List.mem_append] at hc
  obtain hc | hc | hc | hc := hc
  · obtain h | h := p.isSign
    · simp [h] at hc
    · rw [h, List.mem_singleton] at hc
      subst hc
      rfl
  · exact isNumberChar_of_isDigit (p.isWhole.2 c hc)
  · obtain h | ⟨digits, h, hdigits⟩ := p.isFraction
    · simp [h] at hc
    · rw [h, List.mem_cons] at hc
      obtain rfl | hc := hc
      · rfl
      · exact isNumberChar_of_isDigit (hdigits c hc)
  · obtain h | ⟨mark, sign, digits, h, hmark, hsign, hdigits⟩ := p.isExponent
    · simp [h] at hc
    · rw [h, List.mem_cons, List.mem_append] at hc
      obtain rfl | hc | hc := hc
      · obtain rfl | rfl := hmark <;> rfl
      · obtain rfl | rfl | rfl := hsign
        · simp at hc
        · rw [List.mem_singleton] at hc
          subst hc
          rfl
        · rw [List.mem_singleton] at hc
          subst hc
          rfl
      · exact isNumberChar_of_isDigit (hdigits.2 c hc)

/-- A number starts at the text of a numeral. -/
theorem startsNumber_text (p : Numeral.Spelling) : StartsNumber p.text := by
  obtain ⟨hne, hall⟩ := p.isWhole
  obtain ⟨d, rest, hwhole⟩ := List.exists_cons_of_ne_nil hne
  have hdigit := hall d (by simp [hwhole])
  obtain h | h := p.isSign
  · rw [Numeral.Spelling.text, h, hwhole]
    exact Or.inl hdigit
  · rw [Numeral.Spelling.text, h, hwhole]
    exact Or.inr ⟨rfl, d, rfl, hdigit⟩

/-- A numeral spells the double that it denotes. -/
theorem spells_numeral (p : Numeral.Spelling) : Spells p.text [.number p.numeral.value] := by
  have hstarts := startsNumber_text p
  apply spells_of_lexes
  · intro rest _
    cases htext : p.text with
    | nil => exact absurd hstarts (by simp [htext, StartsNumber])
    | cons c more =>
      have hnumber := isNumberChar_of_mem_text p (by rw [htext]; exact List.mem_cons_self)
      refine stopsRun_cons.mpr ?_
      by_contra hblank
      rw [Bool.not_eq_false] at hblank
      have hends : Scanner.endsAtom c = true := by simp [Scanner.endsAtom, hblank]
      rw [isNumberChar_of_endsAtom hends] at hnumber
      cases hnumber
  · intro rest position hrest
    have hrun : run ⟨p.text ++ rest, position⟩ Scanner.isNumberChar = p.text :=
      takeWhile_append_of_stopsRun (fun c hc => isNumberChar_of_mem_text p hc)
        hrest.stopsRun_number
    have hend : EndsAtom (past ⟨p.text ++ rest, position⟩ p.text).rest := by
      rw [past, List.drop_left]
      exact hrest
    have hlexes := Lexes.number (hstarts.append rest) hrun hend (Numeral.mem_pattern.mpr ⟨p, rfl⟩)
    rw [Numeral.denoted_text] at hlexes
    exact hlexes

/-- The text of a finite double spells it. -/
theorem spells_double {x : Binary64} (h : x.isFinite = true) :
    Spells x.toText.toList [.number x] := by
  obtain ⟨p, htext, hvalue⟩ := Numeral.exists_spelling_ofBinary64 h
  have hspells := spells_numeral p
  rw [htext, hvalue] at hspells
  rw [Binary64.toText, String.toList_ofList]
  exact hspells

/-- Parts with single blanks between them spell their lexemes one after the other. -/
theorem spells_intercalate {parts : List (List Char)} {lexemes : List (List Lexeme)}
    (h : List.Forall₂ Spells parts lexemes) :
    Spells ([' '].intercalate parts) lexemes.flatten := by
  induction h with
  | nil => exact spells_nil
  | @cons part ls parts lexemes hpart hparts ih =>
    cases hparts with
    | nil => simpa using hpart
    | cons hnext hmore =>
      rw [List.intercalate_cons_cons, List.flatten_cons, List.append_assoc]
      exact hpart.separated rfl ih

end Lisplet.Cursor
