import Lisplet.Proofs.Form.Beginning
import Lisplet.Proofs.Interpreter.New

/-!
# Programs that outgrow the stack

The depth limit bounds how deep expressions and their evaluation go. How deep a value goes is not
bounded by it: in a `let` each binding can put the value of the one before it into a list, and no
expression on the way is deeper than two lists. So whatever room there is to display a value, some
program within a small limit comes to a value that is deeper, or shows one on the way.
-/

namespace Lisplet

namespace Form

/-- A text that spells a plain value whose lists are nested no deeper than a number. -/
structure IsTextOf (bound : ℕ) (text : String) (v : Value) : Prop where
  spells : Cursor.Spells text.toList v.lexemes
  plain : v.IsPlain
  nesting : v.nesting ≤ bound

variable {bound : ℕ}

/-- A name is the text of its symbol. -/
theorem isTextOf_symbol {name : String} (h : Cursor.IsName name.toList) :
    IsTextOf bound name (.symbol name) where
  spells := Cursor.spells_name h
  plain := (Value.leaves_leaf (by simp)).mpr (Or.inr (Or.inl ⟨name, rfl⟩))
  nesting := Nat.zero_le bound

/-- Texts of values make a text of the list of these. -/
theorem isTextOf_list {parts : List String} {items : List Value}
    (h : List.Forall₂ (IsTextOf bound) parts items) :
    IsTextOf (bound + 1) ("(" ++ String.intercalate " " parts ++ ")") (.list items) := by
  have hitems : (∀ v ∈ items, v.IsPlain) ∧ Value.nestingAll items ≤ bound := by
    induction h with
    | nil => simp
    | cons hpart _ ih =>
      rw [List.forall_mem_cons, Value.nestingAll_cons]
      exact ⟨⟨hpart.plain, ih.1⟩, Nat.max_le.mpr ⟨hpart.nesting, ih.2⟩⟩
  refine ⟨spells_list (h.imp fun _ _ hpart => hpart.spells), Value.isPlain_list.mpr hitems.1, ?_⟩
  rw [Value.nesting_list]
  omega

/-- The text of a list within the limit is read as that list alone. -/
theorem IsTextOf.drain_eq {text : String} {form : List Value}
    (h : IsTextOf bound text (.list form)) {limit : Int} (hlimit : (bound : ℤ) ≤ limit) :
    drain limit (.ofText text) = ([form], none) := by
  have hnesting := h.nesting
  exact drain_of_spells h.spells h.plain (by omega)

end Form

namespace Value

/-- A value inside a number of lists. -/
def wrapped : ℕ → Value → Value
  | 0, v => v
  | n + 1, v => wrapped n (.list [v])

/-- A value inside a number of lists is deeper by that number. -/
theorem depth_wrapped (n : ℕ) (v : Value) : (wrapped n v).depth = n + v.depth := by
  induction n generalizing v with
  | zero => rw [wrapped, Nat.zero_add]
  | succ n ih =>
    rw [wrapped, ih, depth_list, depthAll_cons, depthAll_nil]
    omega

/-- A value inside lists is no marker of an unbound name if the value is none. -/
theorem wrapped_ne_unbound {v : Value} (h : v ≠ .unbound) (n : ℕ) : wrapped n v ≠ .unbound := by
  induction n generalizing v with
  | zero => exact h
  | succ n ih => exact ih (by simp)

/-- A binding of a name to the list of what it has stood for. -/
def wrapping : Value := .list [.symbol "a", .list [.symbol "list", .symbol "a"]]

/-- A `let` that binds a name to the empty value, puts that into a list a number of times, and ends
with a body. -/
def deepening (n : ℕ) (body : Value) : List Value :=
  .symbol "let" :: .list [.symbol "a", .list []] :: (List.replicate n wrapping ++ [body])

/-- The text of such a `let`. -/
def deepeningText (n : ℕ) (body : String) : String :=
  "(" ++ String.intercalate " "
    ("let" :: "(a ())" :: (List.replicate n "(a (list a))" ++ [body])) ++ ")"

/-- The text is in parentheses. -/
theorem exists_deepeningText (n : ℕ) (body : String) :
    ∃ inside, (deepeningText n body).toList = '(' :: (inside ++ [')']) :=
  ⟨_, Form.toList_intercalate_parts _⟩

/-- The body that is the name itself. -/
theorem isTextOf_name {bound : ℕ} : Form.IsTextOf bound "a" (.symbol "a") :=
  Form.isTextOf_symbol (Cursor.isName_of_isLower (by simp) rfl)

/-- The body that shows what the name stands for in a text. -/
theorem isTextOf_concat : Form.IsTextOf 2 "(concat a)" (.list [.symbol "concat", .symbol "a"]) := by
  have hconcat : Cursor.IsName "concat".toList := Cursor.isName_of_isLower (by simp) rfl
  exact Form.isTextOf_list (.cons (Form.isTextOf_symbol hconcat) (.cons isTextOf_name .nil))

/-- However often the value is put into a list, no lists of the program lie deeper than three. -/
theorem isTextOf_deepening (n : ℕ) {text : String} {body : Value}
    (hbody : Form.IsTextOf 2 text body) :
    Form.IsTextOf 3 (deepeningText n text) (.list (deepening n body)) := by
  have hfirst : Form.IsTextOf 2 "(a ())" (.list [.symbol "a", .list []]) :=
    Form.isTextOf_list (.cons isTextOf_name (.cons (Form.isTextOf_list .nil) .nil))
  have hlist : Cursor.IsName "list".toList := Cursor.isName_of_isLower (by simp) rfl
  have hmore : Form.IsTextOf 2 "(a (list a))" wrapping :=
    Form.isTextOf_list (.cons isTextOf_name (.cons (Form.isTextOf_list
      (.cons (Form.isTextOf_symbol hlist) (.cons isTextOf_name .nil))) .nil))
  have hlet : Cursor.IsName "let".toList := Cursor.isName_of_isLower (by simp) rfl
  refine Form.isTextOf_list (.cons (Form.isTextOf_symbol hlet) (.cons hfirst ?_))
  induction n with
  | zero => exact .cons hbody .nil
  | succ n ih => exact .cons hmore ih

example : deepeningText 2 "a" = "(let (a ()) (a (list a)) (a (list a)) a)" := by decide

end Value

namespace Evaluation

open Value

variable {host : Host} {settings : Settings} {scope : Scope} {depth : ℕ}

/-- A name that stands for a value means that value. -/
theorem meaning_symbol_of_ne {name : String} (hlimit : (depth : ℤ) ≤ settings.maxDepth)
    (hvalue : scope name ≠ .unbound) :
    meaning host settings scope depth (.symbol name) = pure (scope name) := by
  rw [meaning_symbol hlimit]
  obtain hpure | ⟨hunbound, -⟩ := Account.resolve_pure_or_fail settings name (scope name)
  · exact hpure
  · exact absurd hunbound hvalue

/-- A builtin function that is applied to one name is applied to what the name stands for. -/
theorem outcome_meaning_apply {head name : String} {f : Builtin} (hlet : head ≠ "let")
    (hlimit : ((depth + 1 : ℕ) : ℤ) ≤ settings.maxDepth)
    (hhead : scope head = .native (.builtin f)) (hvalue : scope name ≠ .unbound) :
    (meaning host settings scope depth (.list [.symbol head, .symbol name])).outcome =
      Account.applied host head (.builtin f) [scope name] := by
  have harg : meaningAll host settings scope (depth + 1) [.symbol name] = pure [scope name] := by
    rw [meaningAll_cons, meaning_symbol_of_ne hlimit hvalue]
    rfl
  rw [meaning_application (by omega) hlet, hhead, harg]
  rfl

/-- Bindings that put a value into a list one after the other bind the name of the value to a value
inside as many lists. -/
theorem outcome_meaningLet_wrapping (hlimit : ((depth + 1 : ℕ) : ℤ) ≤ settings.maxDepth)
    (hlist : scope "list" = .native (.builtin .list)) (n : ℕ) {v : Value} (hvalue : v ≠ .unbound)
    (body : Value) :
    (meaningLet host settings (Function.update scope "a" v) depth
      (List.replicate n wrapping ++ [body])).outcome =
      (meaning host settings (Function.update scope "a" (wrapped n v)) depth body).outcome := by
  induction n generalizing v with
  | zero => rw [List.replicate_zero, List.nil_append, meaningLet_body, wrapped]
  | succ n ih =>
    have hbound : Function.update scope "a" v "a" = v := Function.update_self ..
    have hwrap : (meaning host settings (Function.update scope "a" v) depth
        (.list [.symbol "list", .symbol "a"])).outcome = .ok (.list [v]) := by
      rw [outcome_meaning_apply (by decide) hlimit
        ((Function.update_of_ne (by decide) ..).trans hlist) (by rwa [hbound]), hbound]
      rfl
    rw [List.replicate_succ, List.cons_append, wrapping, meaningLet_binding _ _ (by simp),
      Account.bind_of_ok hwrap, Function.update_idem, wrapped]
    exact ih (by simp)

/-- The whole `let` means what its body does where the name stands for a value inside lists. -/
theorem outcome_meaning_deepening (hlimit : ((depth + 2 : ℕ) : ℤ) ≤ settings.maxDepth)
    (hlist : scope "list" = .native (.builtin .list)) (n : ℕ) (body : Value) :
    (meaning host settings scope depth (.list (deepening n body))).outcome =
      (meaning host settings (Function.update scope "a" (wrapped n .nil)) (depth + 1)
        body).outcome := by
  have hempty : (meaning host settings scope (depth + 1) (.list [])).outcome = .ok .nil := by
    rw [meaning_empty (by omega), Account.outcome_pure]
  rw [deepening, meaning_let (by omega), Account.bind_of_ok rfl, meaningLet_binding _ _ (by simp),
    Account.bind_of_ok hempty]
  exact outcome_meaningLet_wrapping hlimit hlist n (by simp) body

end Evaluation

namespace Interpreter

open Value

variable {host : Host} {settings : Settings} {n : ℕ}

/-- A program of a single form comes to what the form means. -/
theorem outcome_run_of_single (host : Host) (i : Interpreter) {code : String} {form : List Value}
    (hread : Form.drain i.settings.maxDepth (.ofText code) = ([form], none)) :
    (i.run host code).outcome = (Evaluation.meaning host i.settings (i.environments.lookup root) 0
      (.list form)).outcome := by
  rw [(i.run_fields host code).1, course, hread, Course.ofForms_cons, Evaluation.account_evaluate]
  cases (Evaluation.meaning host i.settings (i.environments.lookup root) 0 (.list form)).outcome
  · rfl
  · rfl

/-- The scope in which the body of the program is evaluated. -/
def deepened (settings : Settings) (n : ℕ) : Scope :=
  Function.update ((new settings).environments.lookup root) "a" (wrapped n .nil)

/-- The program comes to what its body does where the name stands for a value inside lists. -/
theorem outcome_run_deepening (host : Host) (hlimit : 3 ≤ settings.maxDepth) (n : ℕ)
    {text : String} {body : Value} (hbody : Form.IsTextOf 2 text body) :
    ((new settings).run host (deepeningText n text)).outcome =
      (Evaluation.meaning host settings (deepened settings n) 1 body).outcome := by
  have hread : Form.drain (new settings).settings.maxDepth (.ofText (deepeningText n text)) =
      ([deepening n body], none) := (isTextOf_deepening n hbody).drain_eq hlimit
  have hlist : (new settings).environments.lookup root "list" = .native (.builtin .list) := by
    with_unfolding_all rfl
  have hlevel : ((0 + 2 : ℕ) : ℤ) ≤ settings.maxDepth := Int.le_trans (by decide) hlimit
  rw [outcome_run_of_single host _ hread]
  exact Evaluation.outcome_meaning_deepening hlevel hlist n body

/-- In that scope the name stands for a value inside lists, which is no marker of an unbound name. -/
theorem deepened_name (settings : Settings) (n : ℕ) :
    deepened settings n "a" = wrapped n .nil ∧ deepened settings n "a" ≠ .unbound := by
  have hname : deepened settings n "a" = wrapped n .nil := Function.update_self ..
  rw [hname]
  exact ⟨rfl, wrapped_ne_unbound (by simp) n⟩

/-- With the name itself as its body the program comes to the value inside lists. -/
theorem outcome_run_deepening_name (host : Host) (hlimit : 3 ≤ settings.maxDepth) (n : ℕ) :
    ((new settings).run host (deepeningText n "a")).outcome = .ok (wrapped n .nil) := by
  obtain ⟨hname, hvalue⟩ := deepened_name settings n
  rw [outcome_run_deepening host hlimit n isTextOf_name,
    Evaluation.meaning_symbol_of_ne (by omega) hvalue, hname, Account.outcome_pure]

/-- With a body that shows the name in a text the program comes to what that comes to. -/
theorem outcome_run_deepening_concat (host : Host) (hlimit : 3 ≤ settings.maxDepth) (n : ℕ) :
    ((new settings).run host (deepeningText n "(concat a)")).outcome =
      Account.applied host "concat" (.builtin .concat) [wrapped n .nil] := by
  obtain ⟨hname, hvalue⟩ := deepened_name settings n
  have hconcat : deepened settings n "concat" = .native (.builtin .concat) :=
    (Function.update_of_ne (by decide) ..).trans (by with_unfolding_all rfl)
  rw [outcome_run_deepening host hlimit n isTextOf_concat,
    Evaluation.outcome_meaning_apply (by decide) (by omega) hconcat hvalue, hname]

/-- There is no room to display a value inside more lists than the stack takes. -/
theorem displays_wrapped_eq_false {room : ℕ} (hroom : host.stack.display = some room)
    (h : room < n) : host.stack.displays (wrapped n .nil) = false := by
  have hdepth := depth_wrapped n .nil
  rw [← Bool.not_eq_true, HostStack.displays_iff hroom, hdepth]
  omega

/-- Whatever room there is to display a value, a program that puts a value into more lists exhausts
the stack, be it that it comes to that value or that it shows it in a text. -/
theorem exhausts_deepening {room : ℕ} (hroom : host.stack.display = some room) (h : room < n)
    (hlimit : 3 ≤ settings.maxDepth) :
    (new settings).Exhausts host (deepeningText n "a") ∧
      ((new settings).run host (deepeningText n "(concat a)")).outcome =
        .error (.fault .exhausted) := by
  have hdisplays := displays_wrapped_eq_false hroom h
  refine ⟨Or.inr ⟨_, outcome_run_deepening_name host hlimit n, hdisplays⟩, ?_⟩
  have htakes : host.stack.takes .concat [wrapped n .nil] = false := by
    rw [HostStack.takes, List.all_cons, hdisplays, Bool.false_and]
  rw [outcome_run_deepening_concat host hlimit n, Account.applied,
    Native.apply_builtin_eq_exhausted_iff.mpr htakes]
  rfl

end Interpreter

end Lisplet
