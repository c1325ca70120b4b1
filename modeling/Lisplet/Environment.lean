import Lisplet.Error.Evaluation

/-!
# Environments

An environment binds names to values and may have an outer one. Environments are numbered in
the order they are made, so an outer environment always has the lower number and following
the outer links ends. A name is looked up along the chain from the inside out; a definition
changes one environment alone and keeps the place of a name that it binds already.
-/

namespace Lisplet

/-- The bindings of one environment, in the order in which the names were first bound. -/
abbrev Bindings := List (String × Value)

namespace Bindings

/-- The bindings with a name bound to a value: in its place if it has one, else at the end. -/
def put (name : String) (value : Value) : Bindings → Bindings
  | [] => [(name, value)]
  | (key, old) :: rest =>
    if key = name then (key, value) :: rest else (key, old) :: put name value rest

/-- The value that a name is bound to. -/
def get? (name : String) : Bindings → Option Value
  | [] => none
  | (key, value) :: rest => if key = name then some value else get? name rest

/-- Whether a name is bound. -/
def binds (bindings : Bindings) (name : String) : Bool := (get? name bindings).isSome

/-- A name that has been bound is bound to what it was bound to last. -/
theorem get?_put_self (name : String) (value : Value) (bindings : Bindings) :
    get? name (put name value bindings) = some value := by
  induction bindings with
  | nil => simp [put, get?]
  | cons entry rest ih =>
    by_cases h : entry.1 = name
    · simp [put, get?, h]
    · simp [put, get?, h, ih]

/-- Binding one name leaves the others as they are. -/
theorem get?_put_of_ne {name other : String} (h : other ≠ name) (value : Value)
    (bindings : Bindings) : get? other (put name value bindings) = get? other bindings := by
  induction bindings with
  | nil => simp [put, get?, Ne.symm h]
  | cons entry rest ih =>
    by_cases hk : entry.1 = name
    · have : ¬ name = other := Ne.symm h
      simp [put, get?, hk, this]
    · by_cases ho : entry.1 = other
      · subst ho
        simp [put, get?, hk]
      · simp [put, get?, hk, ho, ih]

/-- The bindings in braces, names as they are and values inspected. -/
def inspect (bindings : Bindings) : String :=
  "\x7b" ++ String.intercalate ", " (bindings.map fun (name, value) =>
    name ++ ": " ++ value.inspect) ++ "\x7d"

end Bindings

/-- One environment: its own bindings, and the number of the one around it. -/
structure Environment where
  bindings : Bindings := []
  outer : Option Nat := none

/-- All the environments there are, by number. -/
structure Environments where
  entries : Array Environment := #[]

namespace Environments

/-- The bindings of an environment. -/
def bindings (es : Environments) (e : Nat) : Bindings :=
  (es.entries[e]?.map Environment.bindings).getD []

/-- The environment around another one. -/
def outer? (es : Environments) (e : Nat) : Option Nat :=
  es.entries[e]?.bind Environment.outer

/-- An environment and those around it, from the inside out. -/
def chain (es : Environments) (e : Nat) : List Nat :=
  match es.outer? e with
  | none => [e]
  | some outer => if outer < e then e :: es.chain outer else [e]
termination_by e

/-- The innermost environment in a chain that binds a name. -/
def find? (es : Environments) (e : Nat) (name : String) : Option Nat :=
  (es.chain e).find? fun i => (es.bindings i).binds name

/-- The value of a name, or the marker that it has none. -/
def lookup (es : Environments) (e : Nat) (name : String) : Value :=
  ((es.chain e).findSome? fun i => (es.bindings i).get? name).getD .unbound

/-- Whether a name is bound somewhere in a chain. -/
def contains (es : Environments) (e : Nat) (name : String) : Bool := (es.find? e name).isSome

/-- The number that the next environment will get. -/
def nextNumber (es : Environments) : Nat := es.entries.size

/-- One more environment, empty and with the given one around it. -/
def push (es : Environments) (outer : Option Nat) : Environments :=
  ⟨es.entries.push { outer }⟩

/-- All the environments but the newest. -/
def pop (es : Environments) : Environments := ⟨es.entries.pop⟩

/-- Bind a name in one environment. -/
def define (es : Environments) (e : Nat) (name : String) (value : Value) : Environments :=
  ⟨es.entries.modify e fun entry => { entry with bindings := entry.bindings.put name value }⟩

/-- The name that a value spells: symbols and texts do, and nothing else. -/
def bindingName : Value → Except EvalError String
  | .symbol name => .ok name
  | .text name => .ok name
  | value => .error (.notAName value)

/-- The innermost environment that binds what should be a name. -/
def findValue? (es : Environments) (e : Nat) (name : Value) : Except EvalError (Option Nat) :=
  (bindingName name).map (es.find? e)

/-- The value of what should be a name. -/
def lookupValue (es : Environments) (e : Nat) (name : Value) : Except EvalError Value :=
  (bindingName name).map (es.lookup e)

/-- Whether a value is a name and bound somewhere in a chain. -/
def containsValue (es : Environments) (e : Nat) (name : Value) : Bool :=
  match bindingName name with
  | .ok name => es.contains e name
  | .error _ => false

/-- Bind what should be a name in one environment. -/
def defineValue (es : Environments) (e : Nat) (name value : Value) :
    Except EvalError Environments :=
  (bindingName name).map fun name => es.define e name value

/-- Bind names one after the other, up to the first that is none. -/
def defineAll (es : Environments) (e : Nat) :
    List (Value × Value) → Environments × Except EvalError Unit
  | [] => (es, .ok ())
  | (name, value) :: rest =>
    match es.defineValue e name value with
    | .error error => (es, .error error)
    | .ok es => es.defineAll e rest

/-- Bind the symbols of the builtin functions. -/
def register (es : Environments) (e : Nat) : Environments :=
  Builtin.all.foldl (fun es f => es.define e f.symbol (.native (.builtin f))) es

/-- The bindings of an environment, with a mark if there is one around it. -/
def summary (es : Environments) (e : Nat) : String :=
  (es.bindings e).inspect ++ (if (es.outer? e).isSome then " -> ..." else "")

/-- The bindings of a whole chain, from the inside out. -/
def inspect (es : Environments) (e : Nat) : String :=
  "<Environment chain: " ++
    String.intercalate " -> " ((es.chain e).map fun i => (es.bindings i).inspect) ++ ">"

end Environments

end Lisplet
