/-!
# Kinds of error

The language's errors form a tree of kinds: errors in program text and errors of evaluation,
each with narrower kinds below it.
-/

namespace Lisplet

/-- The kinds of error that the language reports. -/
inductive ErrorKind where
  | language
  | source
  | lexical
  | parse
  | unbalanced
  | evaluation
  | unboundSymbol
  | invalidName
  deriving DecidableEq

namespace ErrorKind

/-- The next wider kind. -/
def parent? : ErrorKind → Option ErrorKind
  | .language => none
  | .source => some .language
  | .lexical => some .source
  | .parse => some .source
  | .unbalanced => some .parse
  | .evaluation => some .language
  | .unboundSymbol => some .evaluation
  | .invalidName => some .evaluation

/-- How far a kind is from the widest one. -/
def depth : ErrorKind → Nat
  | .language => 0
  | .source => 1
  | .lexical => 2
  | .parse => 2
  | .unbalanced => 3
  | .evaluation => 1
  | .unboundSymbol => 2
  | .invalidName => 2

/-- A wider kind is nearer to the widest one. -/
theorem depth_parent {k p : ErrorKind} (h : k.parent? = some p) : p.depth < k.depth := by
  cases k <;> simp [parent?] at h <;> subst h <;> decide

/-- A kind and all the wider ones, the narrowest first. -/
def lineage (k : ErrorKind) : List ErrorKind :=
  match h : k.parent? with
  | none => [k]
  | some p =>
    have := depth_parent h
    k :: p.lineage
termination_by k.depth

end ErrorKind

end Lisplet
