import Lisplet.Proofs.Binary64.Whole
import Lisplet.Proofs.Native.Results
import Mathlib.Logic.Basic

/-!
# Where arithmetic fails

A function that calculates looks at its arguments first: whether there are enough of them and whether
all of them are numbers. After that a division fails at the first divisor that is zero, and any
calculation fails at a whole number that has to become a double and is too large, whichever comes
first. Otherwise numbers come to a double.
-/

namespace Lisplet

/-- The builtin functions that calculate. -/
inductive Arithmetic where
  | add
  | subtract
  | multiply
  | divide

/-- Whether a value is a zero, as a whole number or as a double of either sign. -/
def Value.IsZero (v : Value) : Prop :=
  v = .number (.whole 0) ∨ ∃ negative, v = .real (.zero negative)

/-- A number is a zero as a value when it is one. -/
theorem Value.isZero_number {n : Number} : (Value.number n).IsZero ↔ n.isZero = true := by
  cases n with
  | whole n => simp [IsZero, Value.real, Number.isZero]
  | real x =>
    cases x with
    | nan => simp [IsZero, Value.real, Number.isZero, Binary64.isZero, Binary64.zero]
    | infinite negative =>
      simp [IsZero, Value.real, Number.isZero, Binary64.isZero, Binary64.zero]
    | finite negative units h =>
      simp [IsZero, Value.real, Number.isZero, Binary64.isZero, Binary64.zero]

namespace Number

variable {exact : Int → Int → Int} {rounded : Binary64 → Binary64 → Binary64} {n : Number}

/-- A double becomes itself. -/
theorem toBinary64?_real (x : Binary64) : (real x).toBinary64? = some x := rfl

/-- A double combines with what becomes a double. -/
theorem combine_real (x : Binary64) :
    combine exact rounded (.real x) n = n.toBinary64?.map fun y => .real (rounded x y) := by
  rw [combine, toBinary64?_real]
  · cases n.toBinary64? <;> rfl
  · simp

/-- What becomes a double combines with a double. -/
theorem combine_of_real (y : Binary64) :
    combine exact rounded n (.real y) = n.toBinary64?.map fun x => .real (rounded x y) := by
  rw [combine, toBinary64?_real]
  · cases n.toBinary64? <;> rfl
  · simp

end Number

namespace Arithmetic

open Builtin (numbers orOverflow sum difference product quotient ratio)

/-- A function that calculates among the builtin functions. -/
def builtin : Arithmetic → Builtin
  | .add => .add
  | .subtract => .subtract
  | .multiply => .multiply
  | .divide => .divide

/-- The least number of arguments of a function that calculates. -/
def least : Arithmetic → ℕ
  | .add => 0
  | .subtract => 1
  | .multiply => 0
  | .divide => 1

/-- What numbers are calculated to. -/
def compute : Arithmetic → List Number → Except Failure Value
  | .add, ns => orOverflow (sum ns)
  | .subtract, ns => orOverflow (difference ns)
  | .multiply, ns => orOverflow (product ns)
  | .divide, ns => ratio ns

/-- The arguments are counted, then looked at, and then calculated with. -/
theorem apply_eq (f : Arithmetic) (args : List Value) :
    f.builtin.apply args =
      if args.length < f.least then .error (EvalError.tooFewArguments f.builtin f.least).toFailure
      else (numbers f.builtin args).bind f.compute := by
  cases f with
  | add => rfl
  | subtract => cases args <;> rfl
  | multiply => rfl
  | divide => cases args <;> rfl

/-- The operands that there is a division by: all but the first, or the only one. -/
def divisors {α : Type} : Arithmetic → List α → List α
  | .divide, [operand] => [operand]
  | .divide, _ :: rest => rest
  | _, _ => []

/-- The numbers that become doubles while a total takes in numbers: a whole total when it meets a
double, or when there is nothing left to take in, and all numbers behind that. -/
def convertedAlong (exact : Int → Int → Int) : Number → List Number → List Number
  | .real _, ns => ns
  | .whole total, [] => [.whole total]
  | .whole total, .whole n :: rest => convertedAlong exact (.whole (exact total n)) rest
  | .whole total, .real x :: rest => .whole total :: .real x :: rest

/-- The numbers that become doubles while numbers are calculated with. -/
def converted : Arithmetic → List Number → List Number
  | .add, ns => convertedAlong (· + ·) (.whole 0) ns
  | .subtract, first :: rest => convertedAlong (· - ·) first rest
  | .multiply, ns => ns
  | .divide, first :: rest => first :: rest.takeWhile fun n => !n.isZero
  | _, [] => []

/-- Whether arguments are to be refused: they are too few, one is not a number, or there is a division
by one that is zero. -/
def Refuses (f : Arithmetic) (args : List Value) : Prop :=
  args.length < f.least ∨ (∃ v ∈ args, v.number? = none) ∨ ∃ v ∈ f.divisors args, v.IsZero

/-- Whether arguments are enough numbers, and a whole number that has to become a double on the way to
their result is too large. -/
def Overflows (f : Arithmetic) (args : List Value) : Prop :=
  ∃ ns : List Number, args = ns.map .number ∧ f.least ≤ ns.length ∧
    ∃ m, .whole m ∈ f.converted ns ∧ Binary64.TooLarge m

section Totals

variable {exact : Int → Int → Int} {rounded : Binary64 → Binary64 → Binary64} {ns : List Number}

/-- A double takes in numbers unless one of them becomes no double. -/
theorem foldlM_double_eq_none_iff {total : Binary64} :
    ns.foldlM (fun total n => n.toBinary64?.map (rounded total)) total = none ↔
      ∃ n ∈ ns, n.toBinary64? = none := by
  induction ns generalizing total with
  | nil => simp
  | cons n rest ih =>
    simp only [List.foldlM_cons, List.mem_cons, exists_eq_or_imp]
    cases n.toBinary64? with
    | none => simp
    | some x => simpa using ih

/-- A total takes in numbers, and then becomes a double, unless one of those that have to become
doubles on the way does not. -/
theorem foldlM_combine_eq_none_iff {total : Number} :
    (ns.foldlM (Number.combine exact rounded) total).bind Number.toBinary64? = none ↔
      ∃ n ∈ convertedAlong exact total ns, n.toBinary64? = none := by
  induction ns generalizing total with
  | nil =>
    rw [List.foldlM_nil, Option.pure_def, Option.bind_some]
    cases total with
    | real x => simp [convertedAlong, Number.toBinary64?_real]
    | whole total => simp only [convertedAlong, List.mem_singleton, exists_eq_left]
  | cons n rest ih =>
    cases total with
    | real x =>
      simp only [List.foldlM_cons, Number.combine_real, convertedAlong, List.mem_cons,
        exists_eq_or_imp]
      cases n.toBinary64? with
      | none => simp
      | some y => simpa [convertedAlong] using @ih (.real (rounded x y))
    | whole total =>
      cases n with
      | whole n => exact ih
      | real y =>
        simp only [List.foldlM_cons, Number.combine_of_real, convertedAlong, List.mem_cons,
          exists_eq_or_imp, Number.toBinary64?_real]
        cases (Number.whole total).toBinary64? with
        | none => simp
        | some x => simpa [convertedAlong] using @ih (.real (rounded x y))

end Totals

variable {f : Arithmetic} {args : List Value} {ns : List Number}

/-- What numbers can be calculated to, when it is known which of two reasons there is to fail. -/
inductive Computation (tooLarge byZero : Prop) : Except Failure Value → Prop
  | overflow (hlarge : tooLarge) : Computation tooLarge byZero (.error (.fault .overflow))
  | divisionByZero (hlarge : ¬ tooLarge) (hzero : byZero) :
      Computation tooLarge byZero (.error EvalError.divisionByZero.toFailure)
  | real (hlarge : ¬ tooLarge) (hzero : ¬ byZero) (x : Binary64) :
      Computation tooLarge byZero (.ok (.real x))

/-- What may have overflowed is calculated without division. -/
theorem computation_orOverflow {tooLarge byZero : Prop} {x? : Option Binary64}
    (hnone : x? = none ↔ tooLarge) (hzero : ¬ byZero) :
    Computation tooLarge byZero (orOverflow x?) := by
  cases x? with
  | none => exact .overflow (hnone.mp rfl)
  | some x => exact .real (fun hlarge => nomatch hnone.mpr hlarge) hzero x

/-- A double is divided up to the first divisor that is zero. -/
theorem computation_quotient (total : Binary64) (ns : List Number) :
    Computation (∃ n ∈ ns.takeWhile fun n => !n.isZero, n.toBinary64? = none)
      (∃ n ∈ ns, n.isZero = true) (quotient total ns) := by
  induction ns generalizing total with
  | nil => exact .real (by simp) (by simp) total
  | cons n rest ih =>
    rw [quotient]
    cases hzero : n.isZero with
    | true => exact .divisionByZero (by simp [hzero]) (by simp [hzero])
    | false =>
      cases hdouble : n.toBinary64? with
      | none => exact .overflow (by simp [hzero, hdouble])
      | some x => simpa [hzero, hdouble] using ih (total.divide x)

/-- Enough numbers are calculated to a double unless one of those that have to become doubles on the
way does not, or a divisor is zero. -/
theorem computation_compute (h : f.least ≤ ns.length) :
    Computation (∃ n ∈ f.converted ns, n.toBinary64? = none) (∃ n ∈ f.divisors ns, n.isZero = true)
      (f.compute ns) := by
  cases f with
  | add => exact computation_orOverflow foldlM_combine_eq_none_iff (by simp [divisors])
  | subtract =>
    refine computation_orOverflow ?_ (by simp [divisors])
    match ns with
    | [n] =>
      rw [difference, Option.map_eq_none_iff]
      exact @foldlM_combine_eq_none_iff _ Binary64.subtract [] n
    | first :: second :: rest => exact foldlM_combine_eq_none_iff
  | multiply => exact computation_orOverflow foldlM_double_eq_none_iff (by simp [divisors])
  | divide =>
    match ns with
    | [n] =>
      rw [compute, ratio, quotient]
      cases hzero : n.isZero with
      | true =>
        exact .divisionByZero (by simpa [converted] using Number.toBinary64?_ne_none_of_isZero hzero)
          (by simp [divisors, hzero])
      | false =>
        cases hdouble : n.toBinary64? with
        | none => exact .overflow (by simp [converted, hdouble])
        | some x => exact .real (by simp [converted, hdouble]) (by simp [divisors, hzero]) _
    | first :: second :: rest =>
      simp only [compute, ratio]
      cases hdouble : first.toBinary64? with
      | none => exact .overflow (by simp [converted, hdouble])
      | some x =>
        simpa [converted, hdouble, divisors] using computation_quotient x (second :: rest)

/-- What a look at arguments finds: too few, a first that is not a number, or enough numbers. -/
inductive Check (f : Arithmetic) : List Value → Prop
  | tooFew {args : List Value} (h : args.length < f.least) : Check f args
  | notANumber {args : List Value} (v : Value) (h : f.least ≤ args.length)
      (hfirst : args.find? (fun v => v.number?.isNone) = some v) : Check f args
  | numbers (ns : List Number) (h : f.least ≤ ns.length) : Check f (ns.map .number)

/-- Arguments are looked at to the end. -/
theorem check (f : Arithmetic) (args : List Value) : Check f args := by
  by_cases hleast : args.length < f.least
  · exact .tooFew hleast
  rw [Nat.not_lt] at hleast
  by_cases hnumbers : ∀ v ∈ args, v.number? ≠ none
  · obtain ⟨ns, rfl⟩ := Builtin.all_numbers_iff.mp hnumbers
    exact .numbers ns (by simpa using hleast)
  · obtain ⟨v, hfirst⟩ := Builtin.exists_first hnumbers
    exact .notANumber v hleast hfirst

/-- Too few arguments are refused for their number, whatever they are. -/
theorem apply_tooFew (h : args.length < f.least) :
    f.builtin.apply args = .error (EvalError.tooFewArguments f.builtin f.least).toFailure := by
  rw [apply_eq, if_pos h]

/-- Enough arguments are refused for the first that is not a number, whatever the others are. -/
theorem apply_notANumber {v : Value} (h : f.least ≤ args.length)
    (hfirst : args.find? (fun v => v.number?.isNone) = some v) :
    f.builtin.apply args = .error (EvalError.notANumber f.builtin v).toFailure := by
  rw [apply_eq, if_neg (Nat.not_lt.mpr h), Builtin.numbers_eq, hfirst]
  rfl

/-- Enough numbers are calculated with. -/
theorem apply_numbers (h : f.least ≤ ns.length) :
    f.builtin.apply (ns.map .number) = f.compute ns := by
  rw [apply_eq, if_neg (by simpa using h), Builtin.numbers_map]
  rfl

/-- Numbers are divided by as they are as values. -/
theorem divisors_map {α β : Type} (f : Arithmetic) (g : α → β) (operands : List α) :
    f.divisors (operands.map g) = (f.divisors operands).map g := by
  cases f with
  | divide =>
    match operands with
    | [] => rfl
    | [_] => rfl
    | _ :: _ :: _ => rfl
  | _ => rfl

/-- Numbers overflow when one that has to become a double does not. -/
theorem overflows_numbers (h : f.least ≤ ns.length) :
    f.Overflows (ns.map .number) ↔ ∃ n ∈ f.converted ns, n.toBinary64? = none := by
  simp only [Number.toBinary64?_eq_none_iff]
  constructor
  · rintro ⟨ns', hns, -, m, hm, hlarge⟩
    obtain rfl : ns = ns' := (List.map_inj_right fun _ _ => Value.number.inj).mp hns
    exact ⟨_, hm, m, rfl, hlarge⟩
  · rintro ⟨n, hn, m, rfl, hlarge⟩
    exact ⟨ns, rfl, h, m, hn, hlarge⟩

/-- Numbers are refused when one that is divided by is zero. -/
theorem refuses_numbers (h : f.least ≤ ns.length) :
    f.Refuses (ns.map .number) ↔ ∃ n ∈ f.divisors ns, n.isZero = true := by
  have hlength : ¬ (ns.map Value.number).length < f.least := by simpa using h
  have hnumbers : ¬ ∃ v ∈ ns.map Value.number, v.number? = none := by
    rintro ⟨v, hv, hnone⟩
    exact Builtin.all_numbers_iff.mpr ⟨ns, rfl⟩ v hv hnone
  rw [Refuses, divisors_map, or_iff_right hlength, or_iff_right hnumbers]
  simp [Value.isZero_number]

/-- Enough numbers come to a double unless they overflow or are refused. -/
theorem computation_numbers (h : f.least ≤ ns.length) :
    Computation (f.Overflows (ns.map .number)) (f.Refuses (ns.map .number))
      (f.builtin.apply (ns.map .number)) := by
  rw [apply_numbers h, overflows_numbers h, refuses_numbers h]
  exact computation_compute h

/-- Arguments that overflow are enough. -/
theorem Overflows.least_le (h : f.Overflows args) : f.least ≤ args.length := by
  obtain ⟨ns, rfl, hleast, -⟩ := h
  rwa [List.length_map]

/-- Arguments that overflow are numbers. -/
theorem Overflows.number?_ne_none (h : f.Overflows args) : ∀ v ∈ args, v.number? ≠ none := by
  obtain ⟨ns, hargs, -⟩ := h
  exact Builtin.all_numbers_iff.mpr ⟨ns, hargs⟩

/-- What a function that calculates can come to, and for which arguments. -/
inductive Outcome (f : Arithmetic) (args : List Value) : Except Failure Value → Prop
  | refused (e : EvalError) (hrefused : f.Refuses args) (hlarge : ¬ f.Overflows args) :
      Outcome f args (.error e.toFailure)
  | overflow (hlarge : f.Overflows args) : Outcome f args (.error (.fault .overflow))
  | real (hrefused : ¬ f.Refuses args) (hlarge : ¬ f.Overflows args) (x : Binary64) :
      Outcome f args (.ok (.real x))

/-- A function that calculates comes to one of these outcomes. -/
theorem outcome_apply (f : Arithmetic) (args : List Value) :
    Outcome f args (f.builtin.apply args) := by
  cases check f args with
  | tooFew h =>
    rw [apply_tooFew h]
    exact .refused _ (.inl h) fun hlarge => Nat.not_lt.mpr hlarge.least_le h
  | notANumber v h hfirst =>
    rw [apply_notANumber h hfirst]
    have hmem : v ∈ args := List.mem_of_find?_eq_some hfirst
    have hnone : v.number? = none := by simpa using List.find?_some hfirst
    exact .refused _ (.inr (.inl ⟨v, hmem, hnone⟩)) fun hlarge =>
      hlarge.number?_ne_none v hmem hnone
  | numbers ns h =>
    have hresult := computation_numbers h
    generalize f.builtin.apply (ns.map .number) = result at hresult
    cases hresult with
    | overflow hlarge => exact .overflow hlarge
    | divisionByZero hlarge hrefused => exact .refused _ hrefused hlarge
    | real hlarge hrefused x => exact .real hrefused hlarge x

variable {result : Except Failure Value}

/-- An error of the language is what refused arguments come to that do not overflow before. -/
theorem Outcome.evalError_iff (h : Outcome f args result) :
    (∃ e : EvalError, result = .error e.toFailure) ↔ f.Refuses args ∧ ¬ f.Overflows args := by
  cases h with
  | refused e hrefused hlarge => exact iff_of_true ⟨e, rfl⟩ ⟨hrefused, hlarge⟩
  | overflow hlarge => exact iff_of_false (fun ⟨_, he⟩ => nomatch he) fun h => h.2 hlarge
  | real hrefused _ _ => exact iff_of_false (fun ⟨_, he⟩ => nomatch he) fun h => hrefused h.1

/-- The overflow of a double is what arguments come to that overflow. -/
theorem Outcome.overflow_iff (h : Outcome f args result) :
    result = .error (.fault .overflow) ↔ f.Overflows args := by
  cases h with
  | refused e _ hlarge => exact iff_of_false (fun he => nomatch he) hlarge
  | overflow hlarge => exact iff_of_true rfl hlarge
  | real _ hlarge _ => exact iff_of_false (fun he => nomatch he) hlarge

/-- A double is what all other arguments come to. -/
theorem Outcome.real_iff (h : Outcome f args result) :
    (∃ x, result = .ok (.real x)) ↔ ¬ f.Refuses args ∧ ¬ f.Overflows args := by
  cases h with
  | refused e hrefused _ => exact iff_of_false (fun ⟨_, hx⟩ => nomatch hx) fun h => h.1 hrefused
  | overflow hlarge => exact iff_of_false (fun ⟨_, hx⟩ => nomatch hx) fun h => h.2 hlarge
  | real hrefused hlarge x => exact iff_of_true ⟨x, rfl⟩ ⟨hrefused, hlarge⟩

/-- Refused numbers that do not overflow before are divided by zero. -/
theorem apply_divisionByZero (h : f.least ≤ args.length) (hnumbers : ∀ v ∈ args, v.number? ≠ none)
    (hrefused : f.Refuses args) (hlarge : ¬ f.Overflows args) :
    f.builtin.apply args = .error EvalError.divisionByZero.toFailure := by
  obtain ⟨ns, rfl⟩ := Builtin.all_numbers_iff.mp hnumbers
  have hresult := computation_numbers (by simpa using h)
  generalize f.builtin.apply (ns.map .number) = result at hresult
  cases hresult with
  | overflow h => exact absurd h hlarge
  | divisionByZero => rfl
  | real _ h _ => exact absurd hrefused h

/-- The only whole number that has to become a double among doubles is the zero that sums start
from. -/
theorem eq_zero_of_whole_mem_converted (hdoubles : ∀ n, .whole n ∉ ns) {m : Int}
    (hm : .whole m ∈ f.converted ns) : m = 0 := by
  cases f with
  | add =>
    match ns with
    | [] => simpa [converted, convertedAlong] using hm
    | .real x :: rest =>
      rw [converted, convertedAlong, List.mem_cons] at hm
      exact hm.elim Number.whole.inj fun hm => absurd hm (hdoubles m)
    | .whole n :: rest => exact absurd List.mem_cons_self (hdoubles n)
  | subtract =>
    match ns with
    | [] => cases hm
    | .real x :: rest =>
      rw [converted, convertedAlong] at hm
      exact absurd (List.mem_cons_of_mem _ hm) (hdoubles m)
    | .whole n :: rest => exact absurd List.mem_cons_self (hdoubles n)
  | multiply => exact absurd hm (hdoubles m)
  | divide =>
    match ns with
    | [] => cases hm
    | first :: rest =>
      have hsub : (first :: rest.takeWhile fun n => !n.isZero) ⊆ first :: rest :=
        List.cons_subset_cons first (List.takeWhile_subset _)
      exact absurd (hsub hm) (hdoubles m)

/-- Doubles do not overflow. -/
theorem not_overflows_of_doubles (hdoubles : ∀ n, .number (.whole n) ∉ args) :
    ¬ f.Overflows args := by
  rintro ⟨ns, rfl, -, m, hm, hlarge⟩
  have hm := eq_zero_of_whole_mem_converted (fun n hn => hdoubles n (List.mem_map_of_mem hn)) hm
  exact Binary64.not_tooLarge_zero (hm ▸ hlarge)

end Arithmetic

end Lisplet
