import Lisplet.Text.Digit
import Lisplet.Text.Quoted

/-!
# Settings

Two settings govern an interpreter: how deep lists and evaluations may nest, and whether a
name without a value is an error. Both can come from environment variables, which are read in
this order; a variable that is missing leaves the default in place.
-/

namespace Lisplet

/-- How deep nesting may go when nothing else is asked for. -/
def defaultDepth : Int := 256

/-- How an interpreter is set up. -/
structure Settings where
  maxDepth : Int := defaultDepth
  strictUnbound : Bool := false
  deriving DecidableEq

/-- The environment variable of the depth limit. -/
def depthVariable : String := "TOYLANG_MAX_DEPTH"

/-- The environment variable of the strict mode. -/
def strictVariable : String := "TOYLANG_STRICT_UNBOUND"

/-- What is wrong with an environment variable. -/
inductive SettingsError where
  | notAnInteger (raw : String)
  | notPositive (n : Int)
  | notAFlag (raw : String)
  deriving DecidableEq

/-- The words for a bad environment variable. -/
def SettingsError.message : SettingsError → String
  | .notAnInteger raw => depthVariable ++ " must be an integer, got " ++ Text.quoted raw
  | .notPositive n => depthVariable ++ " must be positive, got " ++ n.repr
  | .notAFlag raw => strictVariable ++ " must be a boolean flag, got " ++ Text.quoted raw

namespace Settings

/-- The depth limit from its variable; a blank text leaves the default. -/
def readDepth : Option String → Except SettingsError Int
  | none => .ok defaultDepth
  | some raw =>
    if (Text.trim raw).isEmpty then .ok defaultDepth
    else match Text.readInteger? raw with
      | none => .error (.notAnInteger raw)
      | some n => if n < 1 then .error (.notPositive n) else .ok n

/-- A text with the ASCII capitals in lower case. No other character becomes a letter of a
flag word in lower case. -/
def lowerCase (text : String) : String := String.ofList (text.toList.map Char.toLower)

/-- The strict mode from its variable. -/
def readStrict : Option String → Except SettingsError Bool
  | none => .ok false
  | some raw =>
    let word := lowerCase (Text.trim raw)
    if word ∈ ["1", "true", "yes", "on"] then .ok true
    else if word ∈ ["0", "false", "no", "off", ""] then .ok false
    else .error (.notAFlag raw)

/-- The settings that the environment variables ask for. -/
def ofVariables (variableValue : String → Option String) : Except SettingsError Settings := do
  let maxDepth ← readDepth (variableValue depthVariable)
  let strictUnbound ← readStrict (variableValue strictVariable)
  return { maxDepth, strictUnbound }

/-- A depth limit from a variable is positive. -/
theorem one_le_of_readDepth {raw : Option String} {n : Int} (h : readDepth raw = .ok n) :
    1 ≤ n := by
  unfold readDepth at h
  split at h
  · cases h; decide
  · split at h
    · cases h; decide
    · split at h
      · cases h
      · split at h
        · cases h
        · cases h; omega

end Settings

end Lisplet
