import Lisplet.Environment
import Mathlib.Logic.Function.Basic

/-!
# Scopes

What can be seen from an environment is the value of each name there. A new environment shows what
the one around it shows, and a definition changes what its own environment shows of one name,
whether the name had a place there or not. So the shape of a chain does not matter to what is seen.
-/

namespace Lisplet

/-- What names stand for. -/
abbrev Scope := String → Value

namespace Environments

/-- A name is looked up in an environment first, and around it if it is not bound there. -/
theorem lookup_eq (es : Environments) (e : Nat) (name : String) :
    es.lookup e name = ((es.bindings e).get? name).getD
      (match es.outer? e with
        | none => .unbound
        | some outer => if outer < e then es.lookup outer name else .unbound) := by
  rw [lookup, chain]
  cases es.outer? e with
  | none => cases hfound : (es.bindings e).get? name <;> simp [hfound]
  | some outer =>
    dsimp only
    split <;> cases hfound : (es.bindings e).get? name <;> simp [hfound, lookup]

/-- What is seen from an environment depends on that environment and the older ones. -/
theorem lookup_congr {es es' : Environments} {e : Nat}
    (h : ∀ i ≤ e, es.entries[i]? = es'.entries[i]?) : es.lookup e = es'.lookup e := by
  induction e using Nat.strongRecOn with
  | ind e ih =>
    funext name
    have hbindings : es.bindings e = es'.bindings e := by rw [bindings, bindings, h e (Nat.le_refl e)]
    have houter : es.outer? e = es'.outer? e := by rw [outer?, outer?, h e (Nat.le_refl e)]
    rw [lookup_eq, lookup_eq, hbindings, houter]
    congr 1
    split
    · rfl
    · next outer _ =>
      split
      · next hlt => rw [ih outer hlt fun i hi => h i (by omega)]
      · rfl

/-- An environment that does not exist shows nothing. -/
theorem lookup_of_size_le {es : Environments} {e : Nat} (h : es.entries.size ≤ e) :
    es.lookup e = fun _ => .unbound := by
  funext name
  have hnone : es.entries[e]? = none := Array.getElem?_eq_none h
  simp [lookup_eq, bindings, outer?, hnone, Bindings.get?]

/-- From a new environment the same is seen as from the one around it. -/
theorem lookup_push (es : Environments) (env : Nat) :
    (es.push (some env)).lookup es.nextNumber = es.lookup env := by
  funext name
  have hnew : (es.push (some env)).entries[es.nextNumber]? = some { outer := some env } := by
    simp [push, nextNumber]
  rw [lookup_eq, bindings, outer?, hnew]
  simp only [Option.map_some, Option.getD_some, Bindings.get?, Option.getD_none, Option.bind_some]
  split
  · next hlt =>
    -- the environment around the new one is an older one
    rw [nextNumber] at hlt
    refine congrFun (lookup_congr fun i hi => ?_) name
    rw [push, Array.getElem?_push, if_neg (by omega)]
  · next hnot => rw [lookup_of_size_le (Nat.not_lt.mp hnot)]

/-- A new environment with none around it shows nothing. -/
theorem lookup_push_none (es : Environments) :
    (es.push none).lookup es.nextNumber = fun _ => .unbound := by
  funext name
  simp [lookup_eq, bindings, outer?, push, nextNumber, Bindings.get?]

/-- A definition changes what its environment shows of one name. -/
theorem lookup_define {es : Environments} {scope : Nat} (h : scope < es.entries.size)
    (name : String) (value : Value) :
    (es.define scope name value).lookup scope = Function.update (es.lookup scope) name value := by
  have hentry : (es.define scope name value).entries[scope]? =
      some { es.entries[scope] with bindings := es.entries[scope].bindings.put name value } := by
    rw [define, Array.getElem?_modify, if_pos rfl, Array.getElem?_eq_getElem h, Option.map_some]
  have hbindings : (es.define scope name value).bindings scope =
      (es.bindings scope).put name value := by
    simp [bindings, hentry, h]
  have houter : (es.define scope name value).outer? scope = es.outer? scope := by
    simp [outer?, hentry, h]
  have holder (outer : Nat) (hlt : outer < scope) :
      (es.define scope name value).lookup outer = es.lookup outer := by
    refine lookup_congr fun i hi => ?_
    rw [define, Array.getElem?_modify, if_neg (by omega)]
  funext other
  rw [lookup_eq, hbindings, houter]
  by_cases hname : other = name
  · subst hname
    simp [Bindings.get?_put_self]
  · rw [Bindings.get?_put_of_ne hname, Function.update_of_ne hname, lookup_eq es scope other]
    congr 1
    split
    · rfl
    · next outer _ =>
      split
      · next hlt => rw [holder outer hlt]
      · rfl

/-- A definition makes no environment. -/
@[simp] theorem size_define (es : Environments) (scope : Nat) (name : String) (value : Value) :
    (es.define scope name value).entries.size = es.entries.size := by
  simp [define]

/-- Dropping a new environment leaves those that there were. -/
@[simp] theorem pop_push (es : Environments) (outer : Option Nat) :
    (es.push outer).pop = es := by
  simp [push, pop]

/-- What is defined in the newest environment goes when that is dropped. -/
theorem pop_define {es : Environments} {scope : Nat} (h : scope + 1 = es.entries.size)
    (name : String) (value : Value) : (es.define scope name value).pop = es.pop := by
  rw [define, pop, pop]
  congr 1
  apply Array.ext
  · simp
  · intro i hi _
    have hlt : i < es.entries.size - 1 := by simpa using hi
    rw [Array.getElem_pop, Array.getElem_pop, Array.getElem_modify, if_neg (by omega)]

end Environments

end Lisplet
