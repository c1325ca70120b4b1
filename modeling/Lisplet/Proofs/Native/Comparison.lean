import Lisplet.Proofs.Native.Results
import Lisplet.Proofs.Number.Exact
import Mathlib.Data.List.Pairwise

/-!
# Comparisons of many arguments

A comparison looks at neighbouring arguments alone. This is enough: being equal, less and greater
are transitive, so that what holds of neighbours holds of all pairs, and an argument that is not a
number on the line is related to neither of its neighbours.
-/

namespace Lisplet

/-- Whether there are two exact values and they are related in the wanted way. -/
def Related (wanted : ExactValue → ExactValue → Prop) (a b : Option ExactValue) : Prop :=
  ∃ x ∈ a, ∃ y ∈ b, wanted x y

/-- The exact value of a value, if it is a number that has one. -/
def Value.exactValue? (v : Value) : Option ExactValue := v.number?.bind Number.exactValue?

/-- The exact value of a number is the one it has as a value. -/
theorem Value.exactValue?_number (n : Number) : (Value.number n).exactValue? = n.exactValue? := rfl

variable {wanted : ExactValue → ExactValue → Prop}

/-- Exact values are related in the opposite way when they change places. -/
theorem related_swap {a b : Option ExactValue} :
    Related wanted a b ↔ Related (fun x y => wanted y x) b a := by
  constructor
  · rintro ⟨x, hx, y, hy, hxy⟩
    exact ⟨y, hy, x, hx, hxy⟩
  · rintro ⟨y, hy, x, hx, hxy⟩
    exact ⟨x, hx, y, hy, hxy⟩

/-- Exact values are related to others as the wanted relation goes on. -/
theorem Related.trans [IsTrans _ wanted] {a b c : Option ExactValue}
    (hab : Related wanted a b) (hbc : Related wanted b c) : Related wanted a c := by
  obtain ⟨x, hx, y, hy, hxy⟩ := hab
  obtain ⟨y', hy', z, hz, hyz⟩ := hbc
  obtain rfl : y = y' := Option.mem_unique hy hy'
  exact ⟨x, hx, z, hz, IsTrans.trans x y z hxy hyz⟩

namespace Number

variable {a b : Number}

/-- One number is less than another when their exact values are so. -/
theorem less_iff : a.less b = true ↔ Related (· < ·) a.exactValue? b.exactValue? := by
  rw [exactValue?_eq, exactValue?_eq, less]
  cases a.extent? <;> cases b.extent? <;> simp [Related, Extent.below_iff]

/-- Numbers are equal when their exact values are. -/
theorem equal_iff : a.equal b = true ↔ Related (· = ·) a.exactValue? b.exactValue? := by
  rw [exactValue?_eq, exactValue?_eq, equal]
  cases a.extent? <;> cases b.extent? <;> simp [Related, Extent.exactValue_inj]

end Number

namespace Builtin

variable {f : Builtin} {relation : Number → Number → Bool} {args : List Value}

/-- How the exact values of the arguments of a comparison should be related. -/
def wanted? : Builtin → Option (ExactValue → ExactValue → Prop)
  | .equal => some (· = ·)
  | .less => some (· < ·)
  | .greater => some (· > ·)
  | _ => none

/-- A relation that goes on from one to the next holds of all pairs when it holds of neighbours. -/
theorem holdsAlong_iff [IsTrans _ wanted]
    (hrelation : ∀ a b, relation a b = true ↔ Related wanted a.exactValue? b.exactValue?)
    (ns : List Number) :
    holdsAlong relation ns = true ↔
      ns.Pairwise fun a b => Related wanted a.exactValue? b.exactValue? := by
  have htrans : Trans (fun a b : Number => Related wanted a.exactValue? b.exactValue?)
      (fun a b : Number => Related wanted a.exactValue? b.exactValue?)
      (fun a b : Number => Related wanted a.exactValue? b.exactValue?) := ⟨Related.trans⟩
  rw [← List.isChain_iff_pairwise]
  induction ns with
  | nil => simp [holdsAlong]
  | cons a rest ih =>
    cases rest with
    | nil => simp [holdsAlong]
    | cons b rest =>
      rw [holdsAlong, Bool.and_eq_true, hrelation, List.isChain_cons_cons]
      exact and_congr_right fun _ => ih

/-- Numbers are related in all pairs when they are so as values. -/
theorem pairwise_numbers (h : ∀ v ∈ args, v.number? ≠ none) :
    ((args.filterMap Value.number?).Pairwise fun a b => Related wanted a.exactValue? b.exactValue?) ↔
      args.Pairwise fun v w => Related wanted v.exactValue? w.exactValue? := by
  rw [List.pairwise_filterMap]
  apply List.Pairwise.iff_of_mem
  intro v w hv hw
  obtain ⟨m, hm⟩ := Option.ne_none_iff_exists'.mp (h v hv)
  obtain ⟨n, hn⟩ := Option.ne_none_iff_exists'.mp (h w hw)
  simp [Value.exactValue?, hm, hn]

/-- A comparison asks for numbers that are related in the way that is wanted of their exact
values, and what is wanted goes on from one to the next. -/
theorem exists_relation (h : f.wanted? = some wanted) :
    IsTrans _ wanted ∧ ∃ relation : Number → Number → Bool,
      (∀ args, f.apply args = compare f relation args) ∧
      ∀ a b, relation a b = true ↔ Related wanted a.exactValue? b.exactValue? := by
  cases f with
  | equal =>
    cases h
    exact ⟨inferInstance, Number.equal, fun _ => rfl, fun _ _ => Number.equal_iff⟩
  | less =>
    cases h
    exact ⟨inferInstance, Number.less, fun _ => rfl, fun _ _ => Number.less_iff⟩
  | greater =>
    cases h
    exact ⟨inferInstance, fun a b => b.less a, fun _ => rfl,
      fun _ _ => Number.less_iff.trans related_swap⟩
  | add => cases h
  | subtract => cases h
  | multiply => cases h
  | divide => cases h
  | list => cases h
  | concat => cases h

/-- A comparison that has enough arguments, all of them numbers, tells whether all pairs of them are
related. -/
theorem apply_comparison (h : f.wanted? = some wanted) (hlength : 2 ≤ args.length)
    (hnumbers : ∀ v ∈ args, v.number? ≠ none) :
    ∃ b, f.apply args = .ok (flag b) ∧
      (b = true ↔ args.Pairwise fun v w => Related wanted v.exactValue? w.exactValue?) := by
  obtain ⟨htrans, relation, happly, hrelation⟩ := exists_relation h
  have hnone : args.find? (fun v => v.number?.isNone) = none := find?_eq_none_iff.mpr hnumbers
  refine ⟨holdsAlong relation (args.filterMap Value.number?), ?_, ?_⟩
  · rw [happly, compare, if_neg (by omega), numbers_eq, hnone]
    rfl
  · rw [holdsAlong_iff hrelation, pairwise_numbers hnumbers]

/-- A truth value is one just when it is true. -/
theorem flag_eq_one {b : Bool} : flag b = .real .one ↔ b = true := by
  have hdiffer : Binary64.zero false ≠ .one := by decide +kernel
  cases b <;> simp [flag, Value.real, hdiffer]

/-- A truth value is zero just when it is false. -/
theorem flag_eq_zero {b : Bool} : flag b = .real (.zero false) ↔ b = false := by
  have hdiffer : Binary64.one ≠ .zero false := by decide +kernel
  cases b <;> simp [flag, Value.real, hdiffer]

/-- A comparison of too few arguments fails for their number, whatever they are. -/
theorem apply_tooFew (h : f.wanted? = some wanted) (hlength : args.length < 2) :
    f.apply args = .error (EvalError.tooFewArguments f 2).toFailure := by
  obtain ⟨-, relation, happly, -⟩ := exists_relation h
  rw [happly, compare, if_pos hlength]

/-- A comparison of enough arguments fails for the first that is not a number. -/
theorem apply_notANumber (h : f.wanted? = some wanted) (hlength : 2 ≤ args.length) {v : Value}
    (hfirst : args.find? (fun v => v.number?.isNone) = some v) :
    f.apply args = .error (EvalError.notANumber f v).toFailure := by
  obtain ⟨-, relation, happly, -⟩ := exists_relation h
  rw [happly, compare, if_neg (by omega), numbers_eq, hfirst]
  rfl

/-- What a comparison comes to that wants something of all pairs of its arguments. -/
structure ComparesAllPairs (f : Builtin)
    (wanted : ExactValue → ExactValue → Prop) (args : List Value) : Prop where
  fails : (∃ e : EvalError, f.apply args = .error e.toFailure) ↔
    args.length < 2 ∨ ∃ v ∈ args, v.number? = none
  tooFew : args.length < 2 → f.apply args = .error (EvalError.tooFewArguments f 2).toFailure
  notANumber : 2 ≤ args.length → ∀ v, args.find? (fun v => v.number?.isNone) = some v →
    f.apply args = .error (EvalError.notANumber f v).toFailure
  one : 2 ≤ args.length → (∀ v ∈ args, v.number? ≠ none) →
    (f.apply args = .ok (.real .one) ↔
      args.Pairwise fun v w => Related wanted v.exactValue? w.exactValue?)
  zero : 2 ≤ args.length → (∀ v ∈ args, v.number? ≠ none) →
    (f.apply args = .ok (.real (.zero false)) ↔
      ¬ args.Pairwise fun v w => Related wanted v.exactValue? w.exactValue?)

/-- Comparisons come to what they should for all pairs of their arguments. -/
theorem comparesAllPairs_of_wanted? (h : f.wanted? = some wanted) (args : List Value) :
    ComparesAllPairs f wanted args where
  fails := by
    constructor
    · rintro ⟨e, he⟩
      by_contra hfine
      rw [not_or, Nat.not_lt] at hfine
      obtain ⟨b, hb, -⟩ := apply_comparison h hfine.1 (by simpa using hfine.2)
      rw [hb] at he
      cases he
    · intro hfails
      by_cases hlength : args.length < 2
      · exact ⟨_, apply_tooFew h hlength⟩
      · obtain ⟨v, hv, hnone⟩ := hfails.resolve_left hlength
        obtain ⟨first, hfirst⟩ := exists_first fun hall => hall v hv hnone
        exact ⟨_, apply_notANumber h (Nat.not_lt.mp hlength) hfirst⟩
  tooFew := apply_tooFew h
  notANumber hlength _ hfirst := apply_notANumber h hlength hfirst
  one hlength hnumbers := by
    obtain ⟨b, hb, hpairs⟩ := apply_comparison h hlength hnumbers
    rw [hb, ← hpairs, Except.ok.injEq, flag_eq_one]
  zero hlength hnumbers := by
    obtain ⟨b, hb, hpairs⟩ := apply_comparison h hlength hnumbers
    rw [hb, ← hpairs, Except.ok.injEq, flag_eq_zero, Bool.not_eq_true]

/-- Arguments are in ascending order when they are in descending order from the last one on. -/
theorem less_reverse (args : List Value) :
    (less.apply args).toOption = (greater.apply args.reverse).toOption := by
  by_cases hlength : args.length < 2
  · rw [apply_tooFew rfl hlength, apply_tooFew rfl (by rwa [List.length_reverse])]
    rfl
  rw [Nat.not_lt] at hlength
  have hlength' : 2 ≤ args.reverse.length := by rwa [List.length_reverse]
  have hall : (∀ v ∈ args.reverse, v.number? ≠ none) ↔ ∀ v ∈ args, v.number? ≠ none := by simp
  by_cases hnumbers : ∀ v ∈ args, v.number? ≠ none
  · obtain ⟨b, hb, hpairs⟩ := apply_comparison (f := less) rfl hlength hnumbers
    obtain ⟨b', hb', hpairs'⟩ := apply_comparison (f := greater) rfl hlength' (hall.mpr hnumbers)
    rw [List.pairwise_reverse] at hpairs'
    have hsame : b = b' := by
      rw [Bool.eq_iff_iff, hpairs, hpairs']
      exact List.Pairwise.iff_of_mem fun _ _ => related_swap
    rw [hb, hb', hsame]
  · obtain ⟨v, hv⟩ := exists_first hnumbers
    obtain ⟨v', hv'⟩ := exists_first (mt hall.mp hnumbers)
    rw [apply_notANumber rfl hlength hv, apply_notANumber rfl hlength' hv']
    rfl

/-- The builtin comparisons compare all pairs of their arguments, and arguments are in ascending
order just when they are in descending order the other way round. -/
theorem comparisons_hold_of_all_pairs (args : List Value) :
    (∀ f wanted, wanted? f = some wanted → ComparesAllPairs f wanted args) ∧
      (less.apply args).toOption = (greater.apply args.reverse).toOption :=
  ⟨fun _ _ h => comparesAllPairs_of_wanted? h args, less_reverse args⟩

/-- A whole number that no double is equal to lies between a double and an infinity, also the other
way round, but nothing that is not a number lies between two doubles. -/
theorem comparisons_hold_of_mixed_pairs :
    (greater.apply [.real (.infinite false), .number (.whole 9007199254740993),
        .real (.ofInt 9007199254740992)]).toOption = some (.real .one) ∧
      less.apply [.real (.zero false), .real .nan, .real .one] = .ok (.real (.zero false)) := by
  obtain ⟨hascending, hreverse⟩ := comparisons_hold_of_all_pairs
    [.real (.ofInt 9007199254740992), .number (.whole 9007199254740993), .real (.infinite false)]
  have hdouble : Related (· < ·) (Value.real (.ofInt 9007199254740992)).exactValue?
      (Value.number (.whole 9007199254740993)).exactValue? := by
    rw [Value.real, Value.exactValue?_number, Value.exactValue?_number, ← Number.less_iff]
    decide +kernel
  have hwhole : Related (· < ·) (Value.number (.whole 9007199254740993)).exactValue?
      (Value.real (.infinite false)).exactValue? := by
    rw [Value.real, Value.exactValue?_number, Value.exactValue?_number, ← Number.less_iff]
    decide +kernel
  have hbehind : ¬ Related (· < ·) (Value.real (.zero false)).exactValue?
      (Value.real .nan).exactValue? := by
    rw [Value.real, Value.real, Value.exactValue?_number, Value.exactValue?_number,
      ← Number.less_iff]
    decide +kernel
  constructor
  · have hone := (hascending less _ rfl).one (by decide) (by simp [Value.real, Value.number?])
    rw [hone.mpr ?_] at hreverse
    · exact hreverse.symm
    · refine .cons (List.forall_mem_cons.mpr ⟨hdouble, ?_⟩) ?_
      · exact List.forall_mem_singleton.mpr (hdouble.trans hwhole)
      · exact .cons (List.forall_mem_singleton.mpr hwhole) (List.pairwise_singleton _ _)
  · have hzero := ((comparisons_hold_of_all_pairs
      [.real (.zero false), .real .nan, .real .one]).1 less _ rfl).zero (by decide)
      (by simp [Value.real, Value.number?])
    refine hzero.mpr fun hpairs => hbehind ?_
    exact (List.pairwise_cons.mp hpairs).1 _ List.mem_cons_self

end Builtin

end Lisplet
