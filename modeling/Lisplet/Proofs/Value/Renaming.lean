import Lisplet.Proofs.Value.Free

/-!
# Renaming

A name can be exchanged for another one where it is free, and a binding of a `let` can be given
another name together with everything that it binds. What a binding binds ends where its name is
bound again: the expression of such a binding still belongs to it, and nothing behind that does.
-/

namespace Lisplet

namespace Value

mutual

/-- An expression in which `z` stands wherever `x` was free. -/
def rename (x z : String) : Value → Value
  | .symbol name => .symbol (if name = x then z else name)
  | .list (.symbol name :: tail) =>
    if name = "let" then .list (.symbol "let" :: renameLet x z tail)
    else .list (.symbol (if name = x then z else name) :: renameAll x z tail)
  | .list items => .list (renameAll x z items)
  | value => value

/-- Expressions in which `z` stands wherever `x` was free. -/
def renameAll (x z : String) : List Value → List Value
  | [] => []
  | expr :: rest => rename x z expr :: renameAll x z rest

/-- The bindings and the body of a `let` in which `z` stands wherever `x` was free. Behind a binding
of `x` it is not. -/
def renameLet (x z : String) : List Value → List Value
  | [] => []
  | [body] => [rename x z body]
  | binding :: rest =>
    match binding with
    | .list [.symbol name, expr] =>
      .list [.symbol name, rename x z expr] :: if name = x then rest else renameLet x z rest
    | malformed => rename x z malformed :: renameLet x z rest

end

variable {x z : String}

/-- The word `let` keeps its place. -/
theorem rename_let (items : List Value) :
    rename x z (.list (.symbol "let" :: items)) = .list (.symbol "let" :: renameLet x z items) := by
  simp [rename]

/-- Any other head symbol is a name like those in the arguments. -/
theorem rename_application {name : String} (h : name ≠ "let") (args : List Value) :
    rename x z (.list (.symbol name :: args)) =
      .list (.symbol (if name = x then z else name) :: renameAll x z args) := by
  simp [rename, h]

/-- A list headed by no symbol is renamed item by item. -/
theorem rename_headed {head : Value} (h : ∀ name, head ≠ .symbol name) (tail : List Value) :
    rename x z (.list (head :: tail)) = .list (rename x z head :: renameAll x z tail) := by
  rw [rename, renameAll]
  intro name rest hitems
  exact h name (List.cons.inj hitems).1

/-- There are no names in any other expression. -/
theorem rename_leaf {v : Value} (hsymbol : ∀ name, v ≠ .symbol name)
    (hlist : ∀ items, v ≠ .list items) : rename x z v = v := by
  cases v with
  | symbol name => exact absurd rfl (hsymbol name)
  | list items => exact absurd rfl (hlist items)
  | _ => simp [rename]

/-- The expression of a binding belongs to what is around it, what follows does not if the name is
bound again. -/
theorem renameLet_binding (name : String) (expr : Value) {rest : List Value} (h : rest ≠ []) :
    renameLet x z (.list [.symbol name, expr] :: rest) =
      .list [.symbol name, rename x z expr] ::
        if name = x then rest else renameLet x z rest := by
  rw [renameLet]
  simpa using h

/-- Behind a binding of its own name an inner `let` goes on with that name. -/
example : rename "x" "z" (.list [.symbol "let", .list [.symbol "x", .symbol "x"], .symbol "x"]) =
    .list [.symbol "let", .list [.symbol "x", .symbol "z"], .symbol "x"] := rfl

/-- What is no binding ends nothing. -/
theorem renameLet_malformed {binding : Value} {rest : List Value} (h : rest ≠ [])
    (hmalformed : ∀ name expr, binding ≠ .list [.symbol name, expr]) :
    renameLet x z (binding :: rest) = rename x z binding :: renameLet x z rest := by
  rw [renameLet]
  · simpa using h
  · exact hmalformed

/-- Renaming leaves the number of expressions. -/
@[simp] theorem length_renameAll (exprs : List Value) :
    (renameAll x z exprs).length = exprs.length := by
  induction exprs with
  | nil => rw [renameAll]
  | cons expr rest ih => rw [renameAll, List.length_cons, List.length_cons, ih]

/-- Renaming leaves the number of bindings. -/
@[simp] theorem length_renameLet (items : List Value) :
    (renameLet x z items).length = items.length := by
  induction items with
  | nil => rw [renameLet]
  | cons item rest ih =>
    cases rest with
    | nil => rw [renameLet, List.length_singleton, List.length_singleton]
    | cons next rest =>
      obtain ⟨name, expr, rfl⟩ | hmalformed := binding_or_malformed item
      · rw [renameLet_binding name expr (by simp)]
        split
        · rfl
        · rw [List.length_cons, List.length_cons, ih]
      · rw [renameLet_malformed (by simp) hmalformed, List.length_cons, List.length_cons, ih]

/-- Something is left of bindings and a body. -/
theorem renameLet_ne_nil {items : List Value} (h : items ≠ []) : renameLet x z items ≠ [] := by
  rw [← List.length_pos_iff] at h ⊢
  rwa [length_renameLet]

/-- The empty list has no names. -/
theorem rename_empty : rename x z (.list []) = .list [] := by
  rw [rename, renameAll]
  simp

/-- A list stays a list. -/
theorem exists_rename_list (items : List Value) :
    ∃ items', rename x z (.list items) = .list items' := by
  cases items with
  | nil => exact ⟨_, rename_empty⟩
  | cons head tail =>
    by_cases hhead : ∃ name, head = .symbol name
    · obtain ⟨name, rfl⟩ := hhead
      by_cases hlet : name = "let"
      · subst hlet
        exact ⟨_, rename_let tail⟩
      · exact ⟨_, rename_application hlet tail⟩
    · exact ⟨_, rename_headed (not_exists.mp hhead) tail⟩

/-- What is no symbol does not become one. -/
theorem rename_ne_symbol {v : Value} (h : ∀ name, v ≠ .symbol name) (name : String) :
    rename x z v ≠ .symbol name := by
  by_cases hlist : ∃ items, v = .list items
  · obtain ⟨items, rfl⟩ := hlist
    obtain ⟨items', hrename⟩ := exists_rename_list (x := x) (z := z) items
    simp [hrename]
  · rw [rename_leaf h (not_exists.mp hlist)]
    exact h name

/-- What is no binding does not become one. -/
theorem rename_malformed {v : Value} (h : ∀ name expr, v ≠ .list [.symbol name, expr])
    (name : String) (expr : Value) : rename x z v ≠ .list [.symbol name, expr] := by
  intro hv
  cases v with
  | list items =>
    cases items with
    | nil => simp [rename_empty] at hv
    | cons head tail =>
      by_cases hhead : ∃ other, head = .symbol other
      · obtain ⟨other, rfl⟩ := hhead
        have htail : tail.length = 1 := by
          by_cases hlet : other = "let"
          · subst hlet
            rw [rename_let, list.injEq, List.cons.injEq] at hv
            rw [← length_renameLet (x := x) (z := z), hv.2, List.length_singleton]
          · rw [rename_application hlet, list.injEq, List.cons.injEq] at hv
            rw [← length_renameAll (x := x) (z := z), hv.2, List.length_singleton]
        obtain ⟨only, rfl⟩ := List.length_eq_one_iff.mp htail
        exact h other only rfl
      · have hsymbol : ∀ other, head ≠ .symbol other := not_exists.mp hhead
        rw [rename_headed hsymbol, list.injEq, List.cons.injEq] at hv
        exact rename_ne_symbol hsymbol name hv.1
  | _ => simp [rename] at hv

/-- One expression is another one with a binding of `x` renamed to `z`, in a `let` anywhere inside
it. The binding's own expression stays, and so do the bindings before it. -/
inductive RenamesBinding (x z : String) : Value → Value → Prop
  | here (before : List Value) (expr : Value) (after : List Value) (h : after ≠ []) :
    RenamesBinding x z
      (.list (.symbol "let" :: (before ++ .list [.symbol x, expr] :: after)))
      (.list (.symbol "let" :: (before ++ .list [.symbol z, expr] :: renameLet x z after)))
  | inside (before : List Value) {item item' : Value} (after : List Value)
    (h : RenamesBinding x z item item') :
    RenamesBinding x z (.list (before ++ item :: after)) (.list (before ++ item' :: after))

namespace RenamesBinding

variable {v v' : Value}

/-- Only lists have bindings inside them. -/
theorem exists_list (h : RenamesBinding x z v v') :
    (∃ items, v = .list items) ∧ ∃ items', v' = .list items' := by
  cases h with
  | here before expr after _ => exact ⟨⟨_, rfl⟩, ⟨_, rfl⟩⟩
  | inside before after _ => exact ⟨⟨_, rfl⟩, ⟨_, rfl⟩⟩

/-- Where there is a binding, there is the word `let`. -/
theorem ne_let (h : RenamesBinding x z v v') (hlacks : v.Lacks z) : z ≠ "let" := by
  induction h with
  | here before expr after _ =>
    rw [lacks_list, List.forall_mem_cons, lacks_symbol] at hlacks
    exact hlacks.1.symm
  | inside before after _ ih => exact ih (lacks_list.mp hlacks _ (by simp))

end RenamesBinding

/-- A list that binds a name has its last item behind a symbol. -/
theorem append_cons_eq_pair {before after : List Value} {item expr : Value} {name : String}
    (hitem : ∀ other, item ≠ .symbol other) :
    before ++ item :: after = [.symbol name, expr] ↔
      before = [.symbol name] ∧ item = expr ∧ after = [] := by
  cases before with
  | nil => simp [hitem]
  | cons first rest => cases rest <;> simp

end Value

end Lisplet
