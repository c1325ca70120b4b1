import Lisplet.Proofs.Value.Leaves
import Lisplet.Proofs.Value.Shapes

/-!
# Free names

A name is free where it is used as a symbol or as the head of a list, unless a binding of a `let`
around it has bound it before. The word `let` at the head of a list is no name, and neither is the
name in a binding, which a symbol in what follows the binding stands for.
-/

namespace Lisplet

namespace Value

mutual

/-- The names that are free in an expression. The word `let` at the head of a list is no name. -/
def free : Value → List String
  | .symbol name => [name]
  | .list (.symbol name :: tail) => if name = "let" then freeLet tail else name :: freeAll tail
  | .list items => freeAll items
  | _ => []

/-- The names that are free in some expressions. -/
def freeAll : List Value → List String
  | [] => []
  | expr :: rest => free expr ++ freeAll rest

/-- The names that are free in the bindings and the body of a `let`. The name of a binding is bound
in what follows the binding, and not in the expression that it is bound to. -/
def freeLet : List Value → List String
  | [] => []
  | [body] => free body
  | binding :: rest =>
    match binding with
    | .list [.symbol name, expr] => free expr ++ (freeLet rest).filter (· ≠ name)
    | malformed => free malformed ++ freeLet rest

end

/-- The word `let` has the names of its bindings and its body. -/
theorem free_let (items : List Value) :
    free (.list (.symbol "let" :: items)) = freeLet items := by
  simp [free]

/-- Any other head symbol is a name. -/
theorem free_application {name : String} (h : name ≠ "let") (args : List Value) :
    free (.list (.symbol name :: args)) = name :: freeAll args := by
  simp [free, h]

/-- What is no binding binds nothing. -/
theorem freeLet_malformed {binding : Value} {rest : List Value} (h : rest ≠ [])
    (hmalformed : ∀ name expr, binding ≠ .list [.symbol name, expr]) :
    freeLet (binding :: rest) = free binding ++ freeLet rest := by
  rw [freeLet]
  · simpa using h
  · exact hmalformed

/-- A binding binds its name in what follows. -/
theorem freeLet_binding (name : String) (expr : Value) {rest : List Value} (h : rest ≠ []) :
    freeLet (.list [.symbol name, expr] :: rest) =
      free expr ++ (freeLet rest).filter (· ≠ name) := by
  rw [freeLet]
  simpa using h

/-- A binding's own expression sees what the name stood for before. -/
example : free (.list [.symbol "let", .list [.symbol "x", .symbol "x"],
    .list [.symbol "f", .symbol "x"]]) = ["x", "f"] := by decide

variable {name : String}

/-- The names free in a binding's expression are free in the binding as an expression of its own. -/
theorem mem_free_binding {other : String} {expr : Value} (h : name ∈ free expr) :
    name ∈ free (.list [.symbol other, expr]) := by
  by_cases hlet : other = "let"
  · subst hlet
    rwa [free_let, freeLet]
  · rw [free_application hlet]
    simp [freeAll, h]

/-- A name that is free in some expressions is free in one of them. -/
theorem mem_freeAll {exprs : List Value} :
    name ∈ freeAll exprs ↔ ∃ expr ∈ exprs, name ∈ free expr := by
  induction exprs with
  | nil => simp [freeAll]
  | cons expr rest ih => simp [freeAll, ih]

/-- A name that is free in a `let` is free in one of its bindings or in its body. -/
theorem exists_mem_of_mem_freeLet {items : List Value} (h : name ∈ freeLet items) :
    ∃ item ∈ items, name ∈ free item := by
  induction items with
  | nil => simp [freeLet] at h
  | cons item rest ih =>
    cases rest with
    | nil => exact ⟨item, List.mem_cons_self, by rwa [freeLet] at h⟩
    | cons next rest =>
      obtain ⟨other, expr, rfl⟩ | hmalformed := binding_or_malformed item
      · rw [freeLet_binding other expr (by simp), List.mem_append] at h
        obtain hexpr | hrest := h
        · exact ⟨_, List.mem_cons_self, mem_free_binding hexpr⟩
        · obtain ⟨found, hfound, hname⟩ := ih (List.mem_filter.mp hrest).1
          exact ⟨found, List.mem_cons_of_mem _ hfound, hname⟩
      · rw [freeLet_malformed (by simp) hmalformed, List.mem_append] at h
        obtain hitem | hrest := h
        · exact ⟨item, List.mem_cons_self, hitem⟩
        · obtain ⟨found, hfound, hname⟩ := ih hrest
          exact ⟨found, List.mem_cons_of_mem _ hfound, hname⟩

/-- An expression in which a symbol occurs nowhere. -/
def Lacks (name : String) (v : Value) : Prop := v.Leaves (· ≠ .symbol name)

/-- What a list lacks, all its items lack. -/
theorem lacks_list {items : List Value} :
    (Value.list items).Lacks name ↔ ∀ v ∈ items, v.Lacks name := leaves_list

/-- A symbol lacks every other one. -/
theorem lacks_symbol {other : String} : (Value.symbol other).Lacks name ↔ other ≠ name := by
  simp [Lacks, Leaves]

/-- A name that occurs nowhere is not free. -/
theorem Lacks.not_mem_free {v : Value} (h : v.Lacks name) : name ∉ free v := by
  induction v using of_items with
  | list items ih =>
    rw [lacks_list] at h
    intro hfree
    match items with
    | [] => simp [free, freeAll] at hfree
    | head :: tail =>
      have hall : name ∉ freeAll (head :: tail) := by
        rw [mem_freeAll]
        rintro ⟨expr, hexpr, hname⟩
        exact ih expr hexpr (h expr hexpr) hname
      cases head with
      | symbol other =>
        by_cases hlet : other = "let"
        · subst hlet
          rw [free_let] at hfree
          obtain ⟨item, hitem, hname⟩ := exists_mem_of_mem_freeLet hfree
          exact ih item (List.mem_cons_of_mem _ hitem) (h item (List.mem_cons_of_mem _ hitem)) hname
        · rw [free_application hlet] at hfree
          simp_all [freeAll, free]
      | _ => exact hall (by simpa [free] using hfree)
  | leaf v hleaf =>
    rw [Lacks, leaves_leaf hleaf] at h
    cases v with
    | symbol other => simpa [free, eq_comm] using h
    | list items => exact absurd rfl (hleaf items)
    | _ => simp [free]

/-- A name that occurs nowhere in the bindings and the body of a `let` is not free there. -/
theorem not_mem_freeLet {items : List Value} (h : ∀ v ∈ items, v.Lacks name) :
    name ∉ freeLet items := by
  intro hfree
  obtain ⟨item, hitem, hname⟩ := exists_mem_of_mem_freeLet hfree
  exact (h item hitem).not_mem_free hname

end Value

end Lisplet
