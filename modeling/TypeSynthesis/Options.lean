/-!
# Options

* `Options`: where generated names live, and the largest arity of a function wrapper;
* `Options.qualify`: a generated name with its qualifier.
-/

namespace TypeSynthesis

/-- The options of a compilation. -/
structure Options where
  /-- Stands before generated names, unless it is empty. -/
  qualifier : String := "sable.gen"
  /-- The largest arity that a function wrapper supports. -/
  maxArity : Nat := 20
  deriving DecidableEq, Repr, Inhabited

/-- The full name of a generated type. -/
def Options.qualify (o : Options) (name : String) : String :=
  if o.qualifier.isEmpty then name else o.qualifier ++ "." ++ name

end TypeSynthesis
