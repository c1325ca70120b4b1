import Lisplet.Native

/-!
# Results of builtin functions

A builtin function gives a double, a text or the list of its arguments, or it fails: a whole number
can be too large for a double, the arguments too few or not all numbers, and a divisor zero. Where
numbers are wanted, the first argument that is not one is at fault.
-/

namespace Lisplet

namespace Builtin

/-- What builtin functions can come to when they are given some arguments. -/
inductive Result (args : List Value) : Except Failure Value → Prop
  | real (x : Binary64) : Result args (.ok (.real x))
  | text (s : String) : Result args (.ok (.text s))
  | list : Result args (.ok (.list args))
  | overflow : Result args (.error (.fault .overflow))
  | tooFew (f : Builtin) (least : Nat) :
      Result args (.error (EvalError.tooFewArguments f least).toFailure)
  | notANumber (f : Builtin) (v : Value) : Result args (.error (EvalError.notANumber f v).toFailure)
  | divisionByZero : Result args (.error EvalError.divisionByZero.toFailure)

variable {args : List Value}

/-- Arguments are numbers unless there is a first one that is not. -/
theorem numbers_eq (f : Builtin) (args : List Value) :
    numbers f args =
      match args.find? fun v => v.number?.isNone with
      | some v => .error (EvalError.notANumber f v).toFailure
      | none => .ok (args.filterMap Value.number?) := by
  induction args with
  | nil => rfl
  | cons arg rest ih =>
    rw [numbers, ih]
    cases hnumber : arg.number? with
    | none => simp [hnumber]
    | some n =>
      simp only [List.find?_cons, hnumber, Option.isNone_some, List.filterMap_cons_some hnumber]
      cases rest.find? fun v => v.number?.isNone <;> rfl

/-- Arguments are all numbers when there is no first one that is not. -/
theorem find?_eq_none_iff :
    args.find? (fun v => v.number?.isNone) = none ↔ ∀ v ∈ args, v.number? ≠ none := by
  simp [List.find?_eq_none, Option.isNone_iff_eq_none]

/-- Arguments that are not all numbers have a first one that is not. -/
theorem exists_first (h : ¬ ∀ v ∈ args, v.number? ≠ none) :
    ∃ v, args.find? (fun v => v.number?.isNone) = some v :=
  Option.ne_none_iff_exists'.mp (mt find?_eq_none_iff.mp h)

/-- Arguments that are numbers are taken as they are. -/
theorem numbers_map (f : Builtin) (ns : List Number) : numbers f (ns.map .number) = .ok ns := by
  induction ns with
  | nil => rfl
  | cons n rest ih =>
    rw [List.map_cons, numbers, ih]
    rfl

/-- Arguments are all numbers when they are given by numbers. -/
theorem all_numbers_iff :
    (∀ v ∈ args, v.number? ≠ none) ↔ ∃ ns : List Number, args = ns.map .number := by
  constructor
  · intro h
    induction args with
    | nil => exact ⟨[], rfl⟩
    | cons v rest ih =>
      rw [List.forall_mem_cons] at h
      obtain ⟨ns, rfl⟩ := ih h.2
      cases v with
      | number n => exact ⟨n :: ns, rfl⟩
      | _ => exact absurd rfl h.1
  · rintro ⟨ns, rfl⟩
    simp [Value.number?]

/-- What is computed from numbers is a result if it is one for all numbers. -/
theorem result_numbers (f : Builtin) (values : List Value) {g : List Number → Except Failure Value}
    (h : ∀ ns, Result args (g ns)) : Result args ((numbers f values).bind g) := by
  rw [numbers_eq]
  split
  · exact .notANumber f _
  · exact h _

/-- A double and the overflow of one are results. -/
theorem result_orOverflow (x? : Option Binary64) : Result args (orOverflow x?) := by
  cases x? with
  | none => exact .overflow
  | some x => exact .real x

/-- What division comes to is a result, also by zero. -/
theorem result_quotient (total : Binary64) (ns : List Number) :
    Result args (quotient total ns) := by
  induction ns generalizing total with
  | nil => exact .real total
  | cons n rest ih =>
    rw [quotient]
    split
    · exact .divisionByZero
    · split
      · exact .overflow
      · exact ih _

/-- What division of one number by others comes to is a result. -/
theorem result_ratio (ns : List Number) : Result args (ratio ns) := by
  unfold ratio
  split
  · exact .real _
  · exact result_quotient _ _
  · split
    · exact .overflow
    · exact result_quotient _ _

/-- What comparisons come to is a result. -/
theorem result_compare (f : Builtin) (relation : Number → Number → Bool) (values : List Value) :
    Result args (compare f relation values) := by
  unfold compare
  split
  · exact .tooFew f 2
  · exact result_numbers f values (g := fun ns => .ok (flag (holdsAlong relation ns)))
      fun ns => .real _

/-- The builtin functions come to nothing but these results. -/
theorem result_apply (f : Builtin) (args : List Value) : Result args (f.apply args) := by
  cases f with
  | add => exact result_numbers _ _ fun ns => result_orOverflow _
  | subtract =>
    rw [apply]
    split
    · exact .tooFew _ _
    · exact result_numbers _ _ fun ns => result_orOverflow _
  | multiply => exact result_numbers _ _ fun ns => result_orOverflow _
  | divide =>
    rw [apply]
    split
    · exact .tooFew _ _
    · exact result_numbers _ _ result_ratio
  | equal => exact result_compare _ _ _
  | less => exact result_compare _ _ _
  | greater => exact result_compare _ _ _
  | list => exact .list
  | concat => exact .text _

end Builtin

/-- A builtin function comes to its own result, unless the stack of the host has no room for what it
shows. -/
theorem Native.apply_builtin (host : Host) (f : Builtin) (args : List Value) :
    (Native.builtin f).apply host args = f.apply args ∨
      host.stack.takes f args = false ∧
        (Native.builtin f).apply host args = .error (.fault .exhausted) := by
  rw [Native.apply]
  by_cases htakes : host.stack.takes f args = true
  · exact Or.inl (if_pos htakes)
  · exact Or.inr ⟨by simpa using htakes, if_neg htakes⟩

/-- A builtin function exhausts the stack of the host exactly if it shows a value for which there is
no room. -/
theorem Native.apply_builtin_eq_exhausted_iff {host : Host} {f : Builtin} {args : List Value} :
    (Native.builtin f).apply host args = .error (.fault .exhausted) ↔
      host.stack.takes f args = false := by
  refine ⟨fun h => ?_, fun htakes => ?_⟩
  · obtain happly | ⟨htakes, -⟩ := Native.apply_builtin host f args
    · have hresult := f.result_apply args
      rw [← happly, h] at hresult
      cases hresult
    · exact htakes
  · rw [Native.apply, htakes, if_neg (by simp)]

end Lisplet
