import Lisplet.Proofs.Numeral.Grammar

/-!
# What a numeral denotes

The number that a numeral denotes can be read off its text without following the grammar: a
minus sign in front decides the sign, the digits before the exponent mark make one whole number,
and the exponent less the number of places behind the point scales it. Reading by the grammar
finds exactly that, and succeeds on exactly the texts that match the pattern.
-/

namespace Lisplet.Numeral

open Text

/-- Whether a character marks an exponent. -/
def isMark (c : Char) : Bool := c == 'e' || c == 'E'

/-- The power of ten that an exponent asks for. -/
def power (exponent : List Char) : Int :=
  let size : Int := Nat.ofDigitChars 10 (exponent.filter Char.isDigit) 0
  if '-' ∈ exponent then -size else size

/-- The numeral that a text denotes, read off its characters. -/
def denoted (text : List Char) : Numeral :=
  let mantissa := text.takeWhile fun c => !isMark c
  let places := (mantissa.dropWhile (· != '.')).tail
  ⟨text.head? == some '-', Nat.ofDigitChars 10 (mantissa.filter Char.isDigit) 0,
    power (text.dropWhile fun c => !isMark c) - places.length⟩

/-- The numeral that the parts of a spelling make. -/
def Spelling.numeral (p : Spelling) : Numeral :=
  ⟨!p.sign.isEmpty, Nat.ofDigitChars 10 (p.whole ++ p.fraction.tail) 0,
    power p.exponent - p.fraction.tail.length⟩

/-- A digit differs from every character that is none. -/
theorem ne_of_isDigit {c d : Char} (h : c.isDigit = true) (hd : d.isDigit = false) : c ≠ d := by
  rintro rfl
  rw [h] at hd
  exact absurd hd (by decide)

/-- A digit marks no exponent. -/
theorem isMark_of_isDigit {c : Char} (h : c.isDigit = true) : isMark c = false := by
  simp [isMark, ne_of_isDigit h (rfl : 'e'.isDigit = false),
    ne_of_isDigit h (rfl : 'E'.isDigit = false)]

/-- Nothing in a fraction marks an exponent. -/
theorem isMark_of_mem_fraction {text : List Char} (h : IsFraction text) {c : Char}
    (hc : c ∈ text) : isMark c = false := by
  rcases h with rfl | ⟨digits, rfl, hdigits⟩
  · simp at hc
  · rcases List.mem_cons.mp hc with rfl | hc
    · decide
    · exact isMark_of_isDigit (hdigits c hc)

/-- The digits of a fraction are what stands behind its point. -/
theorem filter_fraction {text : List Char} (h : IsFraction text) :
    text.filter Char.isDigit = text.tail := by
  rcases h with rfl | ⟨digits, rfl, hdigits⟩
  · rfl
  · rw [List.filter_cons_of_neg (by decide), List.filter_eq_self.mpr hdigits, List.tail_cons]

/-- A fraction starts with its point. -/
theorem stopsRun_fraction {text : List Char} (h : IsFraction text) :
    StopsRun (· != '.') text := by
  rcases h with rfl | ⟨digits, rfl, -⟩ <;> simp

/-- An exponent starts with its mark. -/
theorem stopsRun_exponent {text : List Char} (h : IsExponent text) :
    StopsRun (fun c => !isMark c) text := by
  rcases h with rfl | ⟨mark, sign, digits, rfl, hmark, -⟩
  · simp
  · rcases hmark with rfl | rfl <;> simp [isMark]

/-- The parts of a numeral before its exponent hold no exponent mark. -/
theorem Spelling.isMark_of_mem (p : Spelling) {c : Char}
    (hc : c ∈ p.sign ++ (p.whole ++ p.fraction)) : isMark c = false := by
  rcases List.mem_append.mp hc with hc | hc
  · rcases p.isSign with h | h
    · simp [h] at hc
    · rw [h, List.mem_singleton] at hc
      subst hc
      decide
  · rcases List.mem_append.mp hc with hc | hc
    · exact isMark_of_isDigit (p.isWhole.2 c hc)
    · exact isMark_of_mem_fraction p.isFraction hc

/-- The text of a numeral, parted before its exponent. -/
theorem Spelling.text_eq (p : Spelling) :
    p.text = (p.sign ++ (p.whole ++ p.fraction)) ++ p.exponent := by
  simp [Spelling.text]

/-- A numeral starts with a minus sign exactly when its sign part is not empty. -/
theorem Spelling.head?_text (p : Spelling) : (p.text.head? == some '-') = !p.sign.isEmpty := by
  rcases p.isSign with h | h
  · obtain ⟨hne, hall⟩ := p.isWhole
    cases hw : p.whole with
    | nil => exact absurd hw hne
    | cons c rest =>
      have hc := ne_of_isDigit (hall c (by simp [hw])) (rfl : '-'.isDigit = false)
      simp [Spelling.text, h, hw, hc]
  · simp [Spelling.text, h]

/-- What the text of a numeral denotes is what its parts make. -/
theorem denoted_text (p : Spelling) : denoted p.text = p.numeral := by
  have hfront : ∀ c ∈ p.sign ++ (p.whole ++ p.fraction), (!isMark c) = true :=
    fun c hc => by simp [p.isMark_of_mem hc]
  have hstop := stopsRun_exponent p.isExponent
  have hmantissa : p.text.takeWhile (fun c => !isMark c) = p.sign ++ (p.whole ++ p.fraction) := by
    rw [p.text_eq, takeWhile_append_of_stopsRun hfront hstop]
  have hexponent : p.text.dropWhile (fun c => !isMark c) = p.exponent := by
    rw [p.text_eq, dropWhile_append_of_stopsRun hfront hstop]
  have hsign : p.sign.filter Char.isDigit = [] := by
    rcases p.isSign with h | h <;> rw [h] <;> rfl
  have hpoint : (p.sign ++ (p.whole ++ p.fraction)).dropWhile (· != '.') = p.fraction := by
    rw [← List.append_assoc]
    refine dropWhile_append_of_stopsRun (fun c hc => ?_) (stopsRun_fraction p.isFraction)
    rcases List.mem_append.mp hc with hc | hc
    · rcases p.isSign with h | h
      · simp [h] at hc
      · rw [h, List.mem_singleton] at hc
        subst hc
        decide
    · simpa using ne_of_isDigit (p.isWhole.2 c hc) (rfl : '.'.isDigit = false)
  have hdigits : (p.sign ++ (p.whole ++ p.fraction)).filter Char.isDigit =
      p.whole ++ p.fraction.tail := by
    rw [List.filter_append, List.filter_append, hsign, List.filter_eq_self.mpr p.isWhole.2,
      filter_fraction p.isFraction, List.nil_append]
  simp only [denoted, Spelling.numeral, hmantissa, hexponent, hpoint, hdigits, p.head?_text]

/-- A nonempty text of digits is read as the number they spell. -/
theorem readDigits?_of_isDigits {text : List Char} (h : IsDigits text) :
    readDigits? text = some (Nat.ofDigitChars 10 text 0) := by
  have hall : text.all Char.isDigit = true := List.all_eq_true.mpr h.2
  simp [readDigits?, h.1, hall]

/-- Only a nonempty text of digits is read as digits. -/
theorem isDigits_of_readDigits? {text : List Char} {n : Nat} (h : readDigits? text = some n) :
    IsDigits text := by
  unfold readDigits? at h
  split at h
  · cases h
  · next hcond =>
    simp only [Bool.or_eq_true, not_or, Bool.not_eq_true, Bool.not_eq_false'] at hcond
    exact ⟨by simpa using hcond.1, by simpa using hcond.2⟩

/-- The power that an exponent asks for is its digits when no minus sign is among them. -/
theorem power_of_isDigits {front digits : List Char} (hfront : front.filter Char.isDigit = [])
    (hdigits : IsDigits digits) :
    power (front ++ digits) =
      if '-' ∈ front then -(Nat.ofDigitChars 10 digits 0 : Int)
      else Nat.ofDigitChars 10 digits 0 := by
  have hminus : '-' ∉ digits := fun h => absurd (hdigits.2 _ h) (by decide)
  simp only [power, List.filter_append, hfront, List.filter_eq_self.mpr hdigits.2,
    List.nil_append, List.mem_append, hminus, or_false]

/-- An exponent is read as the power that it asks for. -/
theorem readExponent?_of_isExponent {text : List Char} (h : IsExponent text) :
    readExponent? text = some (power text) := by
  rcases h with rfl | ⟨mark, sign, digits, rfl, hmark, hsign, hdigits⟩
  · rfl
  · have hread := readDigits?_of_isDigits hdigits
    rw [← List.cons_append]
    rcases hsign with rfl | rfl | rfl
    · rw [power_of_isDigits (by rcases hmark with rfl | rfl <;> rfl) hdigits]
      cases digits with
      | nil => exact absurd rfl hdigits.1
      | cons d rest =>
        have hplus := ne_of_isDigit (hdigits.2 d (by simp)) (rfl : '+'.isDigit = false)
        have hminus := ne_of_isDigit (hdigits.2 d (by simp)) (rfl : '-'.isDigit = false)
        rcases hmark with rfl | rfl <;> simp [readExponent?, hread, hplus, hminus]
    · rw [power_of_isDigits (by rcases hmark with rfl | rfl <;> rfl) hdigits]
      rcases hmark with rfl | rfl <;> simp [readExponent?, hread]
    · rw [power_of_isDigits (by rcases hmark with rfl | rfl <;> rfl) hdigits]
      rcases hmark with rfl | rfl <;> simp [readExponent?, hread]

/-- Only an exponent is read as one. -/
theorem isExponent_of_readExponent? {text : List Char} {k : Int} (h : readExponent? text = some k) :
    IsExponent text := by
  unfold readExponent? at h
  split at h
  · exact Or.inl rfl
  · next mark rest =>
    split at h
    · next hmark =>
      right
      split at h
      · next digits =>
        obtain ⟨n, hn, -⟩ := Option.map_eq_some_iff.mp h
        exact ⟨mark, ['+'], digits, rfl, hmark, by simp, isDigits_of_readDigits? hn⟩
      · next digits =>
        obtain ⟨n, hn, -⟩ := Option.map_eq_some_iff.mp h
        obtain ⟨m, hm, -⟩ := Option.bind_eq_some_iff.mp hn
        exact ⟨mark, ['-'], digits, rfl, hmark, by simp, isDigits_of_readDigits? hm⟩
      · obtain ⟨n, hn, -⟩ := Option.map_eq_some_iff.mp h
        exact ⟨mark, [], rest, rfl, hmark, by simp, isDigits_of_readDigits? hn⟩
    · cases h

/-- What follows the whole digits of a numeral stops them. -/
theorem stopsRun_isDigit {fraction exponent : List Char} (hfraction : IsFraction fraction)
    (hexponent : IsExponent exponent) : StopsRun Char.isDigit (fraction ++ exponent) := by
  rcases hfraction with rfl | ⟨digits, rfl, -⟩
  · rcases hexponent with rfl | ⟨mark, sign, digits, rfl, hmark, -⟩
    · simp
    · rcases hmark with rfl | rfl <;> simp
  · simp

/-- A fraction is parted from the exponent behind it. -/
theorem splitFraction_append {fraction exponent : List Char} (hfraction : IsFraction fraction)
    (hexponent : IsExponent exponent) :
    splitFraction (fraction ++ exponent) = (fraction.tail, exponent) := by
  rcases hfraction with rfl | ⟨digits, rfl, hdigits⟩
  · rcases hexponent with rfl | ⟨mark, sign, digits, rfl, hmark, -⟩
    · rfl
    · rcases hmark with rfl | rfl <;> rfl
  · have hstop : StopsRun Char.isDigit exponent := stopsRun_isDigit (Or.inl rfl) hexponent
    simp only [List.cons_append, splitFraction, List.span_eq_takeWhile_dropWhile, List.tail_cons]
    rw [takeWhile_append_of_stopsRun hdigits hstop, dropWhile_append_of_stopsRun hdigits hstop]

/-- Parting a fraction from what follows takes off a fraction and nothing else. -/
theorem exists_fraction (text : List Char) :
    ∃ fraction, IsFraction fraction ∧ text = fraction ++ (splitFraction text).2 := by
  unfold splitFraction
  split
  · next rest =>
    rw [List.span_eq_takeWhile_dropWhile]
    refine ⟨'.' :: rest.takeWhile Char.isDigit, Or.inr ⟨_, rfl, fun c => ?_⟩, by simp⟩
    exact List.mem_takeWhile_imp
  · exact ⟨[], Or.inl rfl, rfl⟩

/-- The parts of a numeral behind its sign are read as the number that they make. -/
theorem readUnsigned?_parts (p : Spelling) (negative : Bool) :
    readUnsigned? negative (p.whole ++ (p.fraction ++ p.exponent)) =
      some { p.numeral with negative } := by
  have hstop := stopsRun_isDigit p.isFraction p.isExponent
  have hwhole : p.whole.isEmpty = false := by simpa using p.isWhole.1
  simp only [readUnsigned?, List.span_eq_takeWhile_dropWhile,
    takeWhile_append_of_stopsRun p.isWhole.2 hstop, dropWhile_append_of_stopsRun p.isWhole.2 hstop,
    splitFraction_append p.isFraction p.isExponent, hwhole,
    readExponent?_of_isExponent p.isExponent, Spelling.numeral]
  rfl

/-- The text of a numeral is read as what its parts make. -/
theorem read?_text (p : Spelling) : read? p.text = some p.numeral := by
  have hparts := readUnsigned?_parts p
  obtain ⟨hne, hall⟩ := p.isWhole
  rcases p.isSign with h | h
  · cases hw : p.whole with
    | nil => exact absurd hw hne
    | cons c rest =>
      have hc := ne_of_isDigit (hall c (by simp [hw])) (rfl : '-'.isDigit = false)
      have hread : read? p.text = readUnsigned? false p.text := by
        simp [Spelling.text, h, hw, read?, hc]
      rw [hread, Spelling.text, h, List.nil_append, hparts]
      simp [Spelling.numeral, h]
  · have hread : read? p.text = readUnsigned? true (p.whole ++ (p.fraction ++ p.exponent)) := by
      simp [Spelling.text, h, read?]
    rw [hread, hparts]
    simp [Spelling.numeral, h]

/-- An unsigned text that is read as a number has the parts of a numeral. -/
theorem exists_spelling_of_readUnsigned? {sign text : List Char} (hsign : sign = [] ∨ sign = ['-'])
    {negative : Bool} {n : Numeral} (h : readUnsigned? negative text = some n) :
    ∃ p : Spelling, p.text = sign ++ text := by
  simp only [readUnsigned?, List.span_eq_takeWhile_dropWhile] at h
  split at h
  · cases h
  · next hne =>
    obtain ⟨k, hk, -⟩ := Option.map_eq_some_iff.mp h
    obtain ⟨fraction, hfraction, heq⟩ := exists_fraction (text.dropWhile Char.isDigit)
    refine ⟨⟨sign, text.takeWhile Char.isDigit, fraction, _, hsign,
      ⟨by simpa using hne, fun c => List.mem_takeWhile_imp⟩, hfraction,
      isExponent_of_readExponent? hk⟩, ?_⟩
    rw [Spelling.text, ← heq, List.takeWhile_append_dropWhile]

/-- A text that is read as a number has the parts of a numeral. -/
theorem exists_spelling_of_read? {text : List Char} {n : Numeral} (h : read? text = some n) :
    ∃ p : Spelling, p.text = text := by
  unfold read? at h
  split at h
  · exact exists_spelling_of_readUnsigned? (Or.inr rfl) h
  · exact exists_spelling_of_readUnsigned? (Or.inl rfl) h

/-- Reading succeeds on the texts that match the pattern, and finds what they denote. -/
theorem read?_eq (text : List Char) :
    read? text = if text ∈ pattern.matches' then some (denoted text) else none := by
  split
  · next h =>
    obtain ⟨p, rfl⟩ := mem_pattern.mp h
    rw [read?_text, denoted_text]
  · next h =>
    cases hread : read? text with
    | none => rfl
    | some n => exact absurd (mem_pattern.mpr (exists_spelling_of_read? hread)) h

end Lisplet.Numeral
