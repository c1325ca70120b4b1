import Lisplet.Environment
import Mathlib.Data.List.Find
import Mathlib.Data.List.Induction

/-!
# Environments and their history

A history is what has been done with environments, from none on: environments were made and names
were bound in them. What the environments show afterwards is read off the history itself. A chain
follows the environments that were named as the outer ones when each was made; a name belongs to
the first environment of a chain in which it was ever bound, and it has the value that it was bound
to there last.
-/

namespace Lisplet

/-- The name that a value spells, if it spells one. -/
def Value.name? : Value → Option String
  | .symbol name => some name
  | .text name => some name
  | _ => none

namespace Bindings

/-- The bindings after names have been bound one after the other. -/
def putAll (bindings : Bindings) (definitions : List (String × Value)) : Bindings :=
  definitions.foldl (fun bindings definition => bindings.put definition.1 definition.2) bindings

/-- The value in the latest of some definitions of a name. -/
def latest? (name : String) (definitions : List (String × Value)) : Option Value :=
  ((definitions.filter fun definition => definition.1 = name).getLast?).map Prod.snd

@[simp] theorem latest?_nil (name : String) : latest? name [] = none := rfl

/-- A later definition of the name is the latest one, and one of another name is not. -/
theorem latest?_concat (name : String) (definitions : List (String × Value))
    (definition : String × Value) :
    latest? name (definitions ++ [definition]) =
      if definition.1 = name then some definition.2 else latest? name definitions := by
  by_cases h : definition.1 = name <;> simp [latest?, List.filter_append, h]

/-- There is a latest definition of the names that have been defined. -/
theorem isSome_latest? (name : String) (definitions : List (String × Value)) :
    (latest? name definitions).isSome = decide (name ∈ definitions.map Prod.fst) := by
  induction definitions using List.reverseRecOn with
  | nil => rfl
  | append_singleton definitions definition ih =>
    rw [latest?_concat]
    by_cases h : definition.1 = name
    · simp [h]
    · have hne : name ≠ definition.1 := Ne.symm h
      simp [h, ih, hne]

/-- The last definition is made last. -/
theorem putAll_concat (bindings : Bindings) (definitions : List (String × Value))
    (definition : String × Value) :
    bindings.putAll (definitions ++ [definition]) =
      (bindings.putAll definitions).put definition.1 definition.2 := by
  simp [putAll]

/-- Definitions can be made in two parts. -/
theorem putAll_append (bindings : Bindings) (earlier later : List (String × Value)) :
    bindings.putAll (earlier ++ later) = (bindings.putAll earlier).putAll later := by
  simp [putAll]

/-- After definitions a name is bound to what the latest of them says. -/
theorem get?_putAll (name : String) (definitions : List (String × Value)) :
    get? name (putAll [] definitions) = latest? name definitions := by
  induction definitions using List.reverseRecOn with
  | nil => rfl
  | append_singleton definitions definition ih =>
    rw [putAll_concat, latest?_concat]
    split
    · next h => rw [← h, get?_put_self]
    · next h => rw [get?_put_of_ne (Ne.symm h), ih]

/-- Binding a name keeps its place if it has one, and gives it the last place otherwise. -/
theorem map_fst_put (name : String) (value : Value) (bindings : Bindings) :
    (bindings.put name value).map Prod.fst =
      if name ∈ bindings.map Prod.fst then bindings.map Prod.fst
      else bindings.map Prod.fst ++ [name] := by
  induction bindings with
  | nil => rfl
  | cons entry rest ih =>
    by_cases h : entry.1 = name
    · simp [put, h]
    · have hne : name ≠ entry.1 := Ne.symm h
      by_cases hrest : name ∈ rest.map Prod.fst
      · simp [put, h, ih, hrest]
      · simp [put, h, ih, hrest, hne]

/-- After definitions the names stand in the order in which they were first defined. -/
theorem map_fst_putAll (definitions : List (String × Value)) :
    (putAll [] definitions).map Prod.fst = (definitions.map Prod.fst).eraseDups := by
  induction definitions using List.reverseRecOn with
  | nil => rfl
  | append_singleton definitions definition ih =>
    rw [putAll_concat, map_fst_put, ih, List.map_append, List.eraseDups_append]
    by_cases h : definition.1 ∈ definitions.map Prod.fst
    · simp_all [List.removeAll]
    · simp_all [List.removeAll, List.eraseDups_cons]

end Bindings

namespace Environments

open Bindings (latest?)

/-- What is done with environments: one is made, with none around it or with one that there is,
or names are bound in one that there is. -/
inductive Operation where
  | root
  | child (outer : Nat)
  | define (e : Nat) (name value : Value)
  | update (e : Nat) (entries : List (Value × Value))
  | register (e : Nat)

/-- The environments after an operation, and whether it went through. -/
def perform (es : Environments) : Operation → Environments × Except EvalError Unit
  | .root => (es.push none, .ok ())
  | .child outer => (es.push (some outer), .ok ())
  | .define e name value =>
    match es.defineValue e name value with
    | .ok es' => (es', .ok ())
    | .error error => (es, .error error)
  | .update e entries => es.defineAll e entries
  | .register e => (es.register e, .ok ())

/-- The environments that a history leaves; an operation that fails does not end it. -/
def after (ops : List Operation) : Environments :=
  ops.foldl (fun es op => (es.perform op).1) {}

@[simp] theorem after_concat (ops : List Operation) (op : Operation) :
    after (ops ++ [op]) = ((after ops).perform op).1 := by
  simp [after]

namespace Operation

/-- The environment in which an operation binds names. -/
def target? : Operation → Option Nat
  | root | child _ => none
  | define e _ _ | update e _ | register e => some e

/-- The environment that an operation needs to be there. -/
def needs? : Operation → Option Nat
  | root => none
  | child outer => some outer
  | define e _ _ | update e _ | register e => some e

/-- What is around the environment that an operation makes, if it makes one. -/
def made? : Operation → Option (Option Nat)
  | root => some none
  | child outer => some (some outer)
  | define .. | update .. | register _ => none

/-- The names and values that an operation is given to bind. -/
def entries : Operation → List (Value × Value)
  | root | child _ => []
  | define _ name value => [(name, value)]
  | update _ entries => entries
  | register _ => Builtin.all.map fun f => (.symbol f.symbol, .native (.builtin f))

end Operation

/-- The definitions that come of names and values: those before the first that is no name. -/
def named : List (Value × Value) → List (String × Value)
  | [] => []
  | (name, value) :: rest =>
    match name.name? with
    | some name => (name, value) :: named rest
    | none => []

/-- How binding names and values ends: the first that is no name is blamed. -/
def outcome : List (Value × Value) → Except EvalError Unit
  | [] => .ok ()
  | (name, _) :: rest => if name.name?.isSome then outcome rest else .error (.notAName name)

/-- The definitions that a history has made in an environment, from the first to the latest. -/
def definitions (e : Nat) (ops : List Operation) : List (String × Value) :=
  ops.flatMap fun op => if op.target? = some e then named op.entries else []

/-- What is around each environment that a history has made, by number. -/
def parents (ops : List Operation) : List (Option Nat) := ops.filterMap Operation.made?

/-- Histories that go on with a number of environments and use no environment before it is made. -/
def IsHistory : Nat → List Operation → Prop
  | _, [] => True
  | count, op :: rest =>
    (∀ e ∈ op.needs?, e < count) ∧ IsHistory (count + op.made?.toList.length) rest

/-- The environments from one on, each followed by the one around it, to one that has none. -/
inductive IsChain (parents : List (Option Nat)) : Nat → List Nat → Prop
  | root {e : Nat} (h : parents[e]? = some none) : IsChain parents e [e]
  | child {e outer : Nat} {chain : List Nat} (h : parents[e]? = some (some outer))
      (hchain : IsChain parents outer chain) : IsChain parents e (e :: chain)

/-- The first environment of a chain in which a history has defined a name. -/
def nearest? (ops : List Operation) (chain : List Nat) (name : String) : Option Nat :=
  chain.find? fun i => name ∈ (definitions i ops).map Prod.fst

/-- The same is seen of what should be a name from two environments. -/
def SeenAlike (es : Environments) (i : Nat) (es' : Environments) (j : Nat) (v : Value) : Prop :=
  es.findValue? i v = es'.findValue? j v ∧ es.lookupValue i v = es'.lookupValue j v ∧
    es.containsValue i v = es'.containsValue j v

/-- Names are looked up from an environment as the history has defined them along its chain. A
symbol and a text of the same name are the same, and what is no name is not looked up at all. -/
structure Shows (ops : List Operation) (e : Nat) (chain : List Nat) : Prop where
  /-- The first environment on the chain in which the name was ever defined is found. -/
  find : ∀ v name, v.name? = some name →
    (after ops).findValue? e v = .ok (nearest? ops chain name)
  /-- The name has the value of its latest definition there. -/
  lookup : ∀ v name, v.name? = some name →
    (after ops).lookupValue e v = .ok (((nearest? ops chain name).bind fun i =>
      latest? name (definitions i ops)).getD .unbound)
  /-- The name is contained exactly if an environment is found. -/
  contains : ∀ v name, v.name? = some name →
    (after ops).containsValue e v = (nearest? ops chain name).isSome
  /-- What is no name is refused, and not contained. -/
  notAName : ∀ v, v.name? = none →
    (after ops).findValue? e v = .error (.notAName v) ∧
    (after ops).lookupValue e v = .error (.notAName v) ∧
    (after ops).containsValue e v = false
  /-- The names that the environment itself binds stand in the order of their first definition. -/
  order : ((after ops).bindings e).map Prod.fst = ((definitions e ops).map Prod.fst).eraseDups
  /-- Names that have not been defined here are seen as they are from the environment around. -/
  inherits : ∀ outer, (parents ops)[e]? = some (some outer) → ∀ v name, v.name? = some name →
    name ∉ (definitions e ops).map Prod.fst → SeenAlike (after ops) e (after ops) outer v

/-- Binding names in an environment defines the names up to the first that is none, which is then
blamed, and neither the environments around it nor any others change. -/
structure Binds (ops : List Operation) (e : Nat) (chain : List Nat) : Prop where
  /-- What is no name is not defined, and nothing changes. -/
  define : ∀ v value, v.name? = none →
    (after ops).perform (.define e v value) = (after ops, .error (.notAName v))
  /-- An update ends at the first that is no name, as if it had had the entries before. -/
  update : ∀ before v value rest, (∀ entry ∈ before, entry.1.name?.isSome) → v.name? = none →
    (after ops).perform (.update e (before ++ (v, value) :: rest)) =
      (after (ops ++ [.update e before]), .error (.notAName v))
  /-- Names go through. -/
  goesThrough : ∀ op : Operation, op.target? = some e →
    (∀ entry ∈ op.entries, entry.1.name?.isSome) → ((after ops).perform op).2 = .ok ()
  /-- No other environment gets or loses a binding. -/
  others : ∀ op : Operation, op.target? = some e → ∀ i ≠ e,
    (after (ops ++ [op])).bindings i = (after ops).bindings i
  /-- From the environments around, the same is seen as before. -/
  around : ∀ op : Operation, op.target? = some e → ∀ i ∈ chain, i ≠ e → ∀ v,
    SeenAlike (after (ops ++ [op])) i (after ops) i v

/-! ## What a definition does -/

/-- What spells a name is taken for it. -/
theorem bindingName_of_name {v : Value} {name : String} (h : v.name? = some name) :
    bindingName v = .ok name := by
  cases v <;> simp_all [Value.name?, bindingName]

/-- What spells no name is refused. -/
theorem bindingName_of_no_name {v : Value} (h : v.name? = none) :
    bindingName v = .error (.notAName v) := by
  cases v <;> simp_all [Value.name?, bindingName]

/-- Define names one after the other. -/
def defineEach (es : Environments) (e : Nat) (definitions : List (String × Value)) : Environments :=
  definitions.foldl (fun es definition => es.define e definition.1 definition.2) es

/-- Names are defined up to the first that is none. -/
theorem defineAll_eq (es : Environments) (e : Nat) (entries : List (Value × Value)) :
    es.defineAll e entries = (es.defineEach e (named entries), outcome entries) := by
  induction entries generalizing es with
  | nil => rfl
  | cons entry rest ih =>
    obtain ⟨v, value⟩ := entry
    cases hname : v.name? with
    | none => simp [defineAll, defineValue, bindingName_of_no_name hname, named, outcome, hname,
        Except.map, defineEach]
    | some name => simp [defineAll, defineValue, bindingName_of_name hname, named, outcome, hname,
        Except.map, defineEach, ih]

/-- The builtin functions are bound like any symbols. -/
theorem defineAll_builtins (es : Environments) (e : Nat) (fs : List Builtin) :
    es.defineAll e (fs.map fun f => (.symbol f.symbol, .native (.builtin f))) =
      (fs.foldl (fun es f => es.define e f.symbol (.native (.builtin f))) es, .ok ()) := by
  induction fs generalizing es with
  | nil => rfl
  | cons f rest ih => simp [defineAll, defineValue, bindingName, Except.map, ih]

/-- Every operation that binds names is an update with the names that it is given. -/
theorem perform_of_target {op : Operation} {e : Nat} (h : op.target? = some e)
    (es : Environments) :
    es.perform op = (es.defineEach e (named op.entries), outcome op.entries) := by
  rw [← defineAll_eq]
  cases op with
  | root => cases h
  | child outer => cases h
  | define target v value =>
    obtain rfl : target = e := Option.some.inj h
    rw [perform, Operation.entries, defineAll]
    cases es.defineValue target v value <;> rfl
  | update target entries =>
    obtain rfl : target = e := Option.some.inj h
    rfl
  | register target =>
    obtain rfl : target = e := Option.some.inj h
    exact (defineAll_builtins es target Builtin.all).symm

/-- Every other operation makes an environment. -/
theorem perform_of_made {op : Operation} {outer : Option Nat} (h : op.made? = some outer)
    (es : Environments) : es.perform op = (es.push outer, .ok ()) := by
  cases op <;> simp_all [Operation.made?, perform]

/-- A definition goes to the bindings of its environment and to no others. -/
theorem bindings_define {es : Environments} {e : Nat} (h : e < es.entries.size) (name : String)
    (value : Value) (i : Nat) : (es.define e name value).bindings i =
      if i = e then (es.bindings e).put name value else es.bindings i := by
  rw [bindings, define, Array.getElem?_modify]
  by_cases hi : i = e
  · subst hi
    simp [bindings, Array.getElem?_eq_getElem h]
  · simp [bindings, hi, Ne.symm hi]

/-- Definitions go to the bindings of their environment and to no others. -/
theorem bindings_defineEach {es : Environments} {e : Nat} (h : e < es.entries.size)
    (definitions : List (String × Value)) (i : Nat) :
    (es.defineEach e definitions).bindings i =
      if i = e then (es.bindings e).putAll definitions else es.bindings i := by
  induction definitions generalizing es with
  | nil => by_cases hi : i = e <;> simp [defineEach, Bindings.putAll, hi]
  | cons definition rest ih =>
    have hsize : e < (es.define e definition.1 definition.2).entries.size := by
      simpa [define] using h
    have htail := ih hsize
    by_cases hi : i = e <;>
      simpa [defineEach, Bindings.putAll, bindings_define h, hi] using htail

/-- Definitions leave every environment inside the same one. -/
theorem outers_defineEach (es : Environments) (e : Nat) (definitions : List (String × Value)) :
    (es.defineEach e definitions).entries.toList.map Environment.outer =
      es.entries.toList.map Environment.outer := by
  induction definitions generalizing es with
  | nil => rfl
  | cons definition rest ih =>
    have hfirst : (es.define e definition.1 definition.2).entries.toList.map Environment.outer =
        es.entries.toList.map Environment.outer := by
      apply List.ext_getElem?
      intro i
      rw [List.getElem?_map, List.getElem?_map, Array.getElem?_toList, Array.getElem?_toList,
        define, Array.getElem?_modify]
      split <;> simp [Option.map_map, Function.comp_def]
    exact (ih _).trans hfirst

/-! ## What the environments keep of a history -/

/-- Environments as a history leaves them: each binds what has been defined in it and is inside
the one it was made with, which is older. -/
structure Records (ops : List Operation) (es : Environments) : Prop where
  bindings : ∀ e, es.bindings e = Bindings.putAll [] (definitions e ops)
  outers : es.entries.toList.map Environment.outer = parents ops
  older : ∀ e outer : Nat, (parents ops)[e]? = some (some outer) → outer < e

variable {ops : List Operation} {es : Environments} {op : Operation} {e : Nat} {chain : List Nat}

/-- There are as many environments as operations that made one. -/
theorem Records.size_eq (h : Records ops es) : es.entries.size = (parents ops).length := by
  simp [← h.outers]

/-- Each environment has the outer one that it was made with. -/
theorem Records.outer?_eq (h : Records ops es) (e : Nat) :
    es.outer? e = ((parents ops)[e]?).join := by
  rw [outer?, ← h.outers, List.getElem?_map, Array.getElem?_toList]
  cases es.entries[e]? <;> rfl

/-- One more operation adds what it names in an environment behind what has been named there. -/
theorem definitions_concat (e : Nat) (ops : List Operation) (op : Operation) :
    definitions e (ops ++ [op]) =
      definitions e ops ++ if op.target? = some e then named op.entries else [] := by
  simp [definitions]

/-- One more operation adds the environment that it makes, if it makes one. -/
theorem parents_concat (ops : List Operation) (op : Operation) :
    parents (ops ++ [op]) = parents ops ++ op.made?.toList := by
  cases h : op.made? <;> simp [parents, h]

/-- Where names are bound in one environment, another one has the definitions that it had. -/
theorem definitions_concat_of_ne (htarget : op.target? = some e) {i : Nat} (hi : i ≠ e) :
    definitions i (ops ++ [op]) = definitions i ops := by
  rw [definitions_concat, htarget, if_neg (by simpa using Ne.symm hi), List.append_nil]

/-- Where names are bound, no environment is made. -/
theorem parents_concat_of_target (htarget : op.target? = some e) :
    parents (ops ++ [op]) = parents ops := by
  have hmade : op.made? = none := by cases op <;> simp_all [Operation.made?, Operation.target?]
  rw [parents_concat, hmade, Option.toList_none, List.append_nil]

/-- A new environment binds nothing, and nothing has been defined under its number. -/
theorem Records.push (h : Records ops es) {outer : Option Nat} (hmade : op.made? = some outer)
    (hop : ∀ e ∈ op.needs?, e < (parents ops).length) : Records (ops ++ [op]) (es.push outer) := by
  have htarget : op.target? = none := by
    cases op <;> simp_all [Operation.made?, Operation.target?]
  have hparents : parents (ops ++ [op]) = parents ops ++ [outer] := by
    rw [parents_concat, hmade, Option.toList_some]
  refine ⟨fun e => ?_, ?_, fun e outer' he => ?_⟩
  · rw [definitions_concat, htarget, if_neg (by simp), List.append_nil, ← h.bindings e,
      Environments.bindings, Environments.push, Array.getElem?_push]
    by_cases hlast : e = es.entries.size
    · simp [hlast, Environments.bindings]
    · rw [if_neg hlast, Environments.bindings]
  · simp [Environments.push, hparents, h.outers]
  · rw [hparents] at he
    by_cases hlt : e < (parents ops).length
    · rw [List.getElem?_append_left hlt] at he
      exact h.older e outer' he
    · have hlast : e = (parents ops).length ∧ outer = some outer' := by
        rw [List.getElem?_append_right (Nat.not_lt.mp hlt), List.getElem?_singleton] at he
        split at he
        · exact ⟨by omega, Option.some.inj he⟩
        · cases he
      obtain ⟨rfl, rfl⟩ := hlast
      refine hop outer' ?_
      cases op <;> simp_all [Operation.made?, Operation.needs?]

/-- Names that are bound are recorded as definitions of their environment. -/
theorem Records.defineEach (h : Records ops es) (htarget : op.target? = some e)
    (he : e < (parents ops).length) :
    Records (ops ++ [op]) (es.defineEach e (named op.entries)) := by
  have hparents : parents (ops ++ [op]) = parents ops := parents_concat_of_target htarget
  refine ⟨fun i => ?_, ?_, by rw [hparents]; exact h.older⟩
  · rw [bindings_defineEach (h.size_eq ▸ he)]
    by_cases hi : i = e
    · subst hi
      rw [if_pos rfl, definitions_concat, htarget, if_pos rfl, h.bindings, Bindings.putAll_append]
    · rw [if_neg hi, definitions_concat_of_ne htarget hi, h.bindings]
  · rw [outers_defineEach, hparents, h.outers]

/-- Every operation is recorded. -/
theorem Records.perform (h : Records ops es) (hop : ∀ e ∈ op.needs?, e < (parents ops).length) :
    Records (ops ++ [op]) (es.perform op).1 := by
  cases hmade : op.made? with
  | some outer =>
    rw [perform_of_made hmade]
    exact h.push hmade hop
  | none =>
    obtain ⟨e, htarget, hneeds⟩ : ∃ e, op.target? = some e ∧ op.needs? = some e := by
      cases op <;> simp_all [Operation.made?, Operation.target?, Operation.needs?]
    rw [perform_of_target htarget]
    exact h.defineEach htarget (hop e hneeds)

/-- A history is recorded operation by operation. -/
theorem Records.foldl (h : Records ops es) {later : List Operation}
    (hlater : IsHistory (parents ops).length later) :
    Records (ops ++ later) (later.foldl (fun es op => (es.perform op).1) es) := by
  induction later generalizing ops es with
  | nil => simpa using h
  | cons op rest ih =>
    obtain ⟨hop, hrest⟩ := hlater
    have hcount : (parents (ops ++ [op])).length =
        (parents ops).length + op.made?.toList.length := by
      rw [parents_concat, List.length_append]
    have hlast := ih (h.perform hop) (hcount ▸ hrest)
    rwa [List.append_assoc, List.singleton_append] at hlast

/-- The environments that a history leaves record it. -/
theorem records_after (h : IsHistory 0 ops) : Records ops (after ops) := by
  have hnone : Records [] {} :=
    ⟨fun _ => by simp [Environments.bindings, definitions, Bindings.putAll], rfl,
      fun _ _ he => by simp [parents] at he⟩
  exact hnone.foldl h

/-! ## What is seen along a chain -/

/-- Every environment has a chain. -/
theorem Records.exists_isChain (h : Records ops es) (he : e < (parents ops).length) :
    ∃ chain, IsChain (parents ops) e chain := by
  induction e using Nat.strongRecOn with
  | ind e ih =>
    cases hparent : (parents ops)[e] with
    | none => exact ⟨_, .root (by rw [List.getElem?_eq_getElem he, hparent])⟩
    | some outer =>
      have hget : (parents ops)[e]? = some (some outer) := by
        rw [List.getElem?_eq_getElem he, hparent]
      have hlt := h.older e outer hget
      obtain ⟨chain, hchain⟩ := ih outer hlt (Nat.lt_trans hlt he)
      exact ⟨_, .child hget hchain⟩

/-- The environments on a chain are older and older. -/
theorem IsChain.le (hchain : IsChain (parents ops) e chain) (h : Records ops es) :
    ∀ i ∈ chain, i ≤ e := by
  induction hchain with
  | root => simp
  | child hget _ ih =>
    intro i hi
    have hlt := h.older _ _ hget
    obtain rfl | hi := List.mem_cons.mp hi
    · exact Nat.le_refl _
    · exact Nat.le_of_lt (Nat.lt_of_le_of_lt (ih i hi) hlt)

/-- The environments on a chain have the rest of it as their own. -/
theorem IsChain.of_mem (hchain : IsChain (parents ops) e chain) {i : Nat} (hi : i ∈ chain) :
    ∃ rest, IsChain (parents ops) i rest := by
  induction hchain with
  | root hget =>
    obtain rfl := List.mem_singleton.mp hi
    exact ⟨_, .root hget⟩
  | child hget hrest ih =>
    obtain rfl | hi := List.mem_cons.mp hi
    · exact ⟨_, .child hget hrest⟩
    · exact ih hi

/-- The environments are walked along the chain that the history gives. -/
theorem Records.chain_eq (h : Records ops es) (hchain : IsChain (parents ops) e chain) :
    es.chain e = chain := by
  induction hchain with
  | root hget => rw [Environments.chain, h.outer?_eq, hget]; rfl
  | child hget _ ih =>
    rw [Environments.chain, h.outer?_eq, hget]
    simp [h.older _ _ hget, ih]

/-- Names are bound where they have been defined. -/
theorem Records.binds_eq (h : Records ops es) (e : Nat) (name : String) :
    (es.bindings e).binds name = decide (name ∈ (definitions e ops).map Prod.fst) := by
  rw [Bindings.binds, h.bindings, Bindings.get?_putAll, Bindings.isSome_latest?]

/-- A name is found in the first environment of the chain in which it has been defined. -/
theorem Records.find?_eq (h : Records ops es) (hchain : IsChain (parents ops) e chain)
    (name : String) : es.find? e name = nearest? ops chain name := by
  rw [Environments.find?, h.chain_eq hchain, nearest?]
  congr 1
  funext i
  exact h.binds_eq i name

/-- The first value along a list is the value at the first place that has one. -/
theorem findSome?_eq_bind_find? {α β : Type} (f : α → Option β) (l : List α) :
    l.findSome? f = (l.find? fun a => (f a).isSome).bind f := by
  induction l with
  | nil => rfl
  | cons a rest ih => cases hfound : f a <;> simp [hfound, ih]

/-- A name has the value of its latest definition in that environment. -/
theorem Records.lookup_eq (h : Records ops es) (hchain : IsChain (parents ops) e chain)
    (name : String) : es.lookup e name = ((nearest? ops chain name).bind fun i =>
      latest? name (definitions i ops)).getD .unbound := by
  have hget (i : Nat) : (es.bindings i).get? name = latest? name (definitions i ops) := by
    rw [h.bindings, Bindings.get?_putAll]
  rw [Environments.lookup, h.chain_eq hchain, findSome?_eq_bind_find?, nearest?]
  simp only [hget, Bindings.isSome_latest?]

/-- What is found and looked up under every name decides what is seen. -/
theorem seenAlike_of_eq {es' : Environments} {i j : Nat} {v : Value}
    (h : ∀ name, v.name? = some name →
      es.find? i name = es'.find? j name ∧ es.lookup i name = es'.lookup j name) :
    SeenAlike es i es' j v := by
  cases hv : v.name? with
  | none =>
    simp [SeenAlike, findValue?, lookupValue, containsValue, bindingName_of_no_name hv, Except.map]
  | some name =>
    obtain ⟨hfind, hlookup⟩ := h name hv
    simp [SeenAlike, findValue?, lookupValue, containsValue, bindingName_of_name hv, Except.map,
      Environments.contains, hfind, hlookup]

/-- What a history's environments show is what the history says. -/
theorem Records.shows (h : Records ops (after ops)) (hchain : IsChain (parents ops) e chain) :
    Shows ops e chain where
  find v name hname := by
    rw [findValue?, bindingName_of_name hname, Except.map, h.find?_eq hchain]
  lookup v name hname := by
    rw [lookupValue, bindingName_of_name hname, Except.map, h.lookup_eq hchain]
  contains v name hname := by
    simp only [containsValue, bindingName_of_name hname, Environments.contains, h.find?_eq hchain]
  notAName v hv := by
    simp [findValue?, lookupValue, containsValue, bindingName_of_no_name hv, Except.map]
  order := by rw [h.bindings, Bindings.map_fst_putAll]
  inherits outer houter v name hname hfresh := by
    cases hchain with
    | root hget => simp [hget] at houter
    | @child _ around rest hget hrest =>
      obtain rfl : around = outer := Option.some.inj (Option.some.inj (hget.symm.trans houter))
      have hnearest : nearest? ops (e :: rest) name = nearest? ops rest name :=
        List.find?_cons_of_neg (by simpa using hfresh)
      refine seenAlike_of_eq fun other hother => ?_
      obtain rfl : name = other := Option.some.inj (hname.symm.trans hother)
      rw [h.find?_eq (.child hget hrest), h.lookup_eq (.child hget hrest), h.find?_eq hrest,
        h.lookup_eq hrest, hnearest]
      exact ⟨rfl, rfl⟩

/-! ## What binding names does -/

/-- Entries behind one that is no name define nothing. -/
theorem named_append {before : List (Value × Value)}
    (h : ∀ entry ∈ before, entry.1.name?.isSome) {v : Value} (hv : v.name? = none) (value : Value)
    (rest : List (Value × Value)) : named (before ++ (v, value) :: rest) = named before := by
  induction before with
  | nil => simp [named, hv]
  | cons entry before ih =>
    obtain ⟨hentry, hbefore⟩ := List.forall_mem_cons.mp h
    obtain ⟨name, hname⟩ := Option.isSome_iff_exists.mp hentry
    simp [named, hname, ih hbefore]

/-- The first entry that is no name is blamed. -/
theorem outcome_append {before : List (Value × Value)}
    (h : ∀ entry ∈ before, entry.1.name?.isSome) {v : Value} (hv : v.name? = none) (value : Value)
    (rest : List (Value × Value)) :
    outcome (before ++ (v, value) :: rest) = .error (.notAName v) := by
  induction before with
  | nil => simp [outcome, hv]
  | cons entry before ih =>
    obtain ⟨hentry, hbefore⟩ := List.forall_mem_cons.mp h
    simp [outcome, hentry, ih hbefore]

/-- Entries that are all names go through. -/
theorem outcome_of_names {entries : List (Value × Value)}
    (h : ∀ entry ∈ entries, entry.1.name?.isSome) : outcome entries = .ok () := by
  induction entries with
  | nil => rfl
  | cons entry rest ih =>
    obtain ⟨hentry, hrest⟩ := List.forall_mem_cons.mp h
    simp [outcome, hentry, ih hrest]

/-- What is seen along a chain depends on the definitions along it. -/
theorem seen_congr {ops' : List Operation}
    (h : ∀ i ∈ chain, definitions i ops' = definitions i ops) (name : String) :
    nearest? ops' chain name = nearest? ops chain name ∧
      ((nearest? ops' chain name).bind fun i => latest? name (definitions i ops')) =
        (nearest? ops chain name).bind fun i => latest? name (definitions i ops) := by
  have hnearest : nearest? ops' chain name = nearest? ops chain name :=
    List.find?_congr fun i hi => by rw [h i hi]
  refine ⟨hnearest, ?_⟩
  rw [hnearest]
  refine Option.bind_congr fun i hi => ?_
  rw [h i (List.mem_of_find?_eq_some hi)]

/-- Binding names in an environment concerns that environment alone. -/
theorem Records.binds (h : Records ops (after ops)) (he : e < (parents ops).length)
    (hchain : IsChain (parents ops) e chain) : Binds ops e chain where
  define v value hv := by
    simp [Environments.perform, defineValue, bindingName_of_no_name hv, Except.map]
  update before v value rest hbefore hv := by
    have htarget (entries : List (Value × Value)) :
        (Operation.update e entries).target? = some e := rfl
    rw [after_concat, perform_of_target (htarget _), perform_of_target (htarget _)]
    simp only [Operation.entries, named_append hbefore hv, outcome_append hbefore hv]
  goesThrough op htarget hnames := by rw [perform_of_target htarget, outcome_of_names hnames]
  others op htarget i hi := by
    rw [after_concat, perform_of_target htarget, bindings_defineEach (h.size_eq ▸ he), if_neg hi]
  around op htarget i hmem hi v := by
    have hlt : i < e := Nat.lt_of_le_of_ne (hchain.le h i hmem) hi
    have hlater : Records (ops ++ [op]) (after (ops ++ [op])) := by
      rw [after_concat, perform_of_target htarget]
      exact h.defineEach htarget he
    have hparents : parents (ops ++ [op]) = parents ops := parents_concat_of_target htarget
    obtain ⟨rest, hrest⟩ := hchain.of_mem hmem
    -- no environment further out is the one that the names have been bound in
    have hsame : ∀ j ∈ rest, definitions j (ops ++ [op]) = definitions j ops := fun j hj =>
      definitions_concat_of_ne htarget
        (Nat.ne_of_lt (Nat.lt_of_le_of_lt (hrest.le h j hj) hlt))
    refine seenAlike_of_eq fun name _ => ?_
    obtain ⟨hnearest, hvalue⟩ := seen_congr hsame name
    rw [hlater.find?_eq (hparents ▸ hrest), hlater.lookup_eq (hparents ▸ hrest), h.find?_eq hrest,
      h.lookup_eq hrest, hvalue, hnearest]
    exact ⟨rfl, rfl⟩

/-- After any history the environments look names up nearest first and latest first. From each one
there is a chain of those that were around it when they were made. A name is found in the first
environment on the chain in which it was ever defined and has the value of its latest definition
there. Binding names stops at the first that is none, and no environment around the one that they
are bound in notices. -/
theorem shows_and_binds_after (h : IsHistory 0 ops) (he : e < (parents ops).length) :
    ∃ chain, IsChain (parents ops) e chain ∧ Shows ops e chain ∧ Binds ops e chain := by
  have hrecords := records_after h
  obtain ⟨chain, hchain⟩ := hrecords.exists_isChain he
  exact ⟨chain, hchain, hrecords.shows hchain, hrecords.binds he hchain⟩

/-- A name is hidden by one without a value, an update breaks off, and a name comes late. -/
def exampleHistory : List Operation :=
  [.root, .child 0, .define 0 (.symbol "x") (.text "around"), .define 1 (.text "x") .unbound,
    .update 1 [(.text "y", .text "kept"), (.list [], .text "refused"), (.text "z", .text "lost")],
    .register 0]

/-- What this history leaves to be seen from the inner environment. -/
theorem shows_and_binds_after_exampleHistory :
    IsHistory 0 exampleHistory ∧ 1 < (parents exampleHistory).length ∧
      ∃ chain, IsChain (parents exampleHistory) 1 chain ∧ Shows exampleHistory 1 chain ∧
        Binds exampleHistory 1 chain := by
  have hhistory : IsHistory 0 exampleHistory := by
    simp [exampleHistory, IsHistory, Operation.needs?, Operation.made?]
  have hthere : 1 < (parents exampleHistory).length := by decide
  exact ⟨hhistory, hthere, shows_and_binds_after hhistory hthere⟩

end Environments

end Lisplet
