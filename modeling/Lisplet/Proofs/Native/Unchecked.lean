import Lisplet.Proofs.Native.Arithmetic

/-!
# Arithmetic that could break down

Arithmetic on values breaks down when an operand is missing or is no number, and when a double is
divided by a zero. None of this is a failure of the language. The functions that calculate count
their arguments, look at all of them, and look at every divisor before they divide by it; so none of
their steps breaks down, and they fail exactly where they should.
-/

namespace Lisplet.Arithmetic

/-- Why a calculation on values goes no further: it breaks down, or it fails as the language has it. -/
inductive Breakdown where
  | missingOperand
  | notANumber
  | zeroDivisor
  | failure (f : Failure)

/-- What there is to go on with, unless a whole number was too large. -/
def unlessTooLarge {α : Type} : Option α → Except Breakdown α
  | some a => .ok a
  | none => .error (.failure (.fault .overflow))

/-- An operand as a number. -/
def operand (v : Value) : Except Breakdown Number :=
  match v.number? with
  | some n => .ok n
  | none => .error .notANumber

/-- An operand as a double. -/
def doubleOperand (v : Value) : Except Breakdown Binary64 := do
  let n ← operand v
  unlessTooLarge n.toBinary64?

/-- A total that takes in an operand. -/
def takeIn (op : Number → Number → Option Number) (total : Number) (v : Value) :
    Except Breakdown Number := do
  let n ← operand v
  unlessTooLarge (op total n)

/-- A double multiplied by an operand. -/
def multiplyBy (total : Binary64) (v : Value) : Except Breakdown Binary64 := do
  let x ← doubleOperand v
  return total.multiply x

/-- A double divided by an operand, after a look whether that is zero. It is the double which the
operand becomes that the division breaks down at. -/
def divideBy (total : Binary64) (v : Value) : Except Breakdown Binary64 := do
  if v.number?.any Number.isZero then
    throw (.failure EvalError.divisionByZero.toFailure)
  let x ← doubleOperand v
  if x.isZero then
    throw .zeroDivisor
  return total.divide x

/-- Values calculated with, whatever they are. -/
def unchecked : Arithmetic → List Value → Except Breakdown Binary64
  | .add, args => do
    let total ← args.foldlM (takeIn Number.add) (.whole 0)
    unlessTooLarge total.toBinary64?
  | .subtract, [] => throw .missingOperand
  | .subtract, [v] => do
    let x ← doubleOperand v
    return x.negate
  | .subtract, first :: rest => do
    let total ← rest.foldlM (takeIn Number.subtract) (← operand first)
    unlessTooLarge total.toBinary64?
  | .multiply, args => args.foldlM multiplyBy .one
  | .divide, [] => throw .missingOperand
  | .divide, [v] => [v].foldlM divideBy .one
  | .divide, first :: rest => do
    let x ← doubleOperand first
    rest.foldlM divideBy x

/-- A look whether a value is a number. -/
def demandNumber (f : Arithmetic) (v : Value) : Except Breakdown Unit :=
  if v.number?.isNone then throw (.failure (EvalError.notANumber f.builtin v).toFailure)
  else return

/-- Arguments counted, then looked at one by one, and then calculated with. -/
def attempt (f : Arithmetic) (args : List Value) : Except Breakdown Value := do
  if args.length < f.least then
    throw (.failure (EvalError.tooFewArguments f.builtin f.least).toFailure)
  forM args f.demandNumber
  let x ← f.unchecked args
  return .real x

variable {f : Arithmetic} {args : List Value} {ns : List Number}

/-- A fold over numbers goes on as its steps do, up to a whole number that is too large. -/
theorem foldlM_unlessTooLarge {τ : Type} {step : τ → Value → Except Breakdown τ}
    {op : τ → Number → Option τ}
    (hstep : ∀ total n, step total (.number n) = unlessTooLarge (op total n)) (total : τ) :
    (ns.map Value.number).foldlM step total = unlessTooLarge (ns.foldlM op total) := by
  induction ns generalizing total with
  | nil => rfl
  | cons n rest ih =>
    rw [List.map_cons, List.foldlM_cons, List.foldlM_cons, hstep]
    cases op total n with
    | none => rfl
    | some next => exact ih next

/-- A number becomes a double unless it is too large. -/
theorem doubleOperand_number (n : Number) :
    doubleOperand (.number n) = unlessTooLarge n.toBinary64? := rfl

/-- A number is not divided by if it is zero, and if it is not it is no zero as a double either. -/
theorem divideBy_number (total : Binary64) (n : Number) :
    divideBy total (.number n) =
      if n.isZero then .error (.failure EvalError.divisionByZero.toFailure)
      else unlessTooLarge (n.toBinary64?.map total.divide) := by
  have hany : (Value.number n).number?.any Number.isZero = n.isZero := rfl
  rw [divideBy, hany, doubleOperand_number]
  cases hzero : n.isZero with
  | true => rfl
  | false =>
    cases hdouble : n.toBinary64? with
    | none => rfl
    | some x =>
      have hx : x.isZero = false := (Number.isZero_of_toBinary64? hdouble).trans hzero
      change (if x.isZero = true then Except.error Breakdown.zeroDivisor else pure (total.divide x)) = _
      rw [hx]
      rfl

/-- A double is divided by numbers as the language has it. -/
theorem foldlM_divideBy (total : Binary64) :
    ((ns.map Value.number).foldlM divideBy total).map Value.real =
      (Builtin.quotient total ns).mapError .failure := by
  induction ns generalizing total with
  | nil => rfl
  | cons n rest ih =>
    rw [List.map_cons, List.foldlM_cons, divideBy_number, Builtin.quotient]
    split
    · rfl
    · cases n.toBinary64? with
      | none => rfl
      | some x => exact ih _

/-- What there is to go on with is shown, or else the overflow. -/
theorem map_unlessTooLarge (x? : Option Binary64) :
    (unlessTooLarge x?).map Value.real = (Builtin.orOverflow x?).mapError .failure := by
  cases x? <;> rfl

/-- A total of numbers is taken to a double as the language has it. -/
theorem foldlM_takeIn (op : Number → Number → Option Number) (first : Number) :
    ((ns.map Value.number).foldlM (takeIn op) first >>= fun total =>
        unlessTooLarge total.toBinary64?) =
      unlessTooLarge ((ns.foldlM op first).bind Number.toBinary64?) := by
  rw [foldlM_unlessTooLarge fun _ _ => rfl]
  cases ns.foldlM op first <;> rfl

/-- Enough numbers are calculated with as the language has it. -/
theorem unchecked_numbers (h : f.least ≤ ns.length) :
    (f.unchecked (ns.map .number)).map Value.real = (f.compute ns).mapError .failure := by
  cases f with
  | add =>
    rw [unchecked, foldlM_takeIn, map_unlessTooLarge]
    rfl
  | subtract =>
    cases ns with
    | nil => cases h
    | cons first rest =>
      cases rest with
      | nil =>
        rw [compute, ← map_unlessTooLarge, Builtin.difference, List.map_cons, List.map_nil,
          unchecked, doubleOperand_number]
        cases first.toBinary64? <;> rfl
      | cons second rest =>
        have htotal := @foldlM_takeIn (second :: rest) Number.subtract first
        exact (congrArg (Except.map Value.real) htotal).trans (map_unlessTooLarge _)
  | multiply =>
    have hstep (total : Binary64) (n : Number) :
        multiplyBy total (.number n) = unlessTooLarge (n.toBinary64?.map total.multiply) := by
      rw [multiplyBy, doubleOperand_number]
      cases n.toBinary64? <;> rfl
    rw [unchecked, foldlM_unlessTooLarge hstep, map_unlessTooLarge]
    rfl
  | divide =>
    cases ns with
    | nil => cases h
    | cons first rest =>
      cases rest with
      | nil => exact @foldlM_divideBy [first] .one
      | cons second rest =>
        change ((unlessTooLarge first.toBinary64?).bind
          (((second :: rest).map Value.number).foldlM divideBy)).map Value.real = _
        simp only [compute, Builtin.ratio]
        cases first.toBinary64? with
        | none => rfl
        | some x => exact foldlM_divideBy x

/-- Arguments are looked at up to the first that is not a number. -/
theorem forM_demandNumber (f : Arithmetic) (args : List Value) :
    forM args f.demandNumber =
      match args.find? fun v => v.number?.isNone with
      | some v => .error (.failure (EvalError.notANumber f.builtin v).toFailure)
      | none => .ok () := by
  induction args with
  | nil => rfl
  | cons v rest ih =>
    rw [List.forM_cons, List.find?_cons, demandNumber]
    cases v.number?.isNone with
    | true => rfl
    | false => exact ih

/-- What is attempted on any values is what the language has for them: nothing breaks down. -/
theorem attempt_eq (f : Arithmetic) (args : List Value) :
    f.attempt args = (f.builtin.apply args).mapError .failure := by
  cases check f args with
  | tooFew h =>
    rw [attempt, if_pos h, apply_tooFew h]
    rfl
  | notANumber v h hfirst =>
    rw [attempt, if_neg (Nat.not_lt.mpr h), forM_demandNumber, hfirst, apply_notANumber h hfirst]
    rfl
  | numbers ns h =>
    have hnone : (ns.map Value.number).find? (fun v => v.number?.isNone) = none :=
      Builtin.find?_eq_none_iff.mpr (Builtin.all_numbers_iff.mpr ⟨ns, rfl⟩)
    rw [apply_numbers h, ← unchecked_numbers h, attempt, if_neg (by simpa using h),
      forM_demandNumber, hnone]
    rfl

/-- What it means that a function that calculates fails exactly where it should. None of its steps
breaks down. Too few arguments are reported before anything else and then the first that is not a
number, whatever the others are. Among doubles just the refused arguments come to an error of the
language, and all others to a double. Whole numbers only add an overflow, at one that is too large. -/
structure FailsExactly (f : Arithmetic) (args : List Value) : Prop where
  attempted : f.attempt args = (f.builtin.apply args).mapError .failure
  tooFew : args.length < f.least →
    f.builtin.apply args = .error (EvalError.tooFewArguments f.builtin f.least).toFailure
  notANumber : f.least ≤ args.length → ∀ v, args.find? (fun v => v.number?.isNone) = some v →
    f.builtin.apply args = .error (EvalError.notANumber f.builtin v).toFailure
  divisionByZero : f.least ≤ args.length → (∀ v ∈ args, v.number? ≠ none) → f.Refuses args →
    ¬ f.Overflows args → f.builtin.apply args = .error EvalError.divisionByZero.toFailure
  refused_of_doubles : (∀ n, .number (.whole n) ∉ args) →
    ((∃ e : EvalError, f.builtin.apply args = .error e.toFailure) ↔ f.Refuses args)
  real_of_doubles : (∀ n, .number (.whole n) ∉ args) →
    ((∃ x, f.builtin.apply args = .ok (.real x)) ↔ ¬ f.Refuses args)
  refused : (∃ e : EvalError, f.builtin.apply args = .error e.toFailure) ↔
    f.Refuses args ∧ ¬ f.Overflows args
  overflow : f.builtin.apply args = .error (.fault .overflow) ↔ f.Overflows args
  real : (∃ x, f.builtin.apply args = .ok (.real x)) ↔ ¬ f.Refuses args ∧ ¬ f.Overflows args

/-- The functions that calculate fail exactly where they should. -/
theorem arithmetic_fails_exactly (f : Arithmetic) (args : List Value) : f.FailsExactly args where
  attempted := attempt_eq f args
  tooFew := apply_tooFew
  notANumber h _ hfirst := apply_notANumber h hfirst
  divisionByZero := apply_divisionByZero
  refused_of_doubles hdoubles := by
    rw [(outcome_apply f args).evalError_iff]
    exact and_iff_left (not_overflows_of_doubles hdoubles)
  real_of_doubles hdoubles := by
    rw [(outcome_apply f args).real_iff]
    exact and_iff_left (not_overflows_of_doubles hdoubles)
  refused := (outcome_apply f args).evalError_iff
  overflow := (outcome_apply f args).overflow_iff
  real := (outcome_apply f args).real_iff

/-- Of a divisor that is too large and one that is a negative zero the first decides, and two whole
numbers that are not too large can have a sum that is. -/
theorem arithmetic_fails_exactly_at_first :
    divide.builtin.apply [.real .one, .number (.whole (Nat.pow 2 1024 : ℕ)), .real (.zero true)] =
        .error (.fault .overflow) ∧
      divide.builtin.apply [.real .one, .real (.zero true), .number (.whole (Nat.pow 2 1024 : ℕ))] =
        .error EvalError.divisionByZero.toFailure ∧
      add.builtin.apply [.number (.whole (Nat.pow 2 1023 : ℕ)), .number (.whole (Nat.pow 2 1023 : ℕ))] =
        .error (.fault .overflow) := by
  have hlarge : Binary64.TooLarge (Nat.pow 2 1024 : ℕ) := by decide +kernel
  refine ⟨?_, ?_, ?_⟩
  · exact (arithmetic_fails_exactly divide _).overflow.mpr
      ⟨[.real .one, .whole (Nat.pow 2 1024 : ℕ), .real (.zero true)], rfl, by decide, _,
        by decide +kernel, hlarge⟩
  · have hlength : divide.least ≤
        [.real .one, .real (.zero true), Number.whole (Nat.pow 2 1024 : ℕ)].length := by decide
    refine (arithmetic_fails_exactly divide _).divisionByZero hlength
      (Builtin.all_numbers_iff.mpr
        ⟨[.real .one, .real (.zero true), .whole (Nat.pow 2 1024 : ℕ)], rfl⟩)
      (.inr (.inr ⟨_, .head _, .inr ⟨true, rfl⟩⟩)) fun hoverflows => ?_
    obtain ⟨n, hn, hnone⟩ := (overflows_numbers hlength).mp hoverflows
    obtain rfl : n = .real .one := List.mem_singleton.mp hn
    cases hnone
  · exact (arithmetic_fails_exactly add _).overflow.mpr
      ⟨[.whole (Nat.pow 2 1023 : ℕ), .whole (Nat.pow 2 1023 : ℕ)], rfl, by decide, _,
        by decide +kernel, hlarge⟩

end Lisplet.Arithmetic
