import TypeSynthesis.Span
import TypeSynthesis.TypeRef

/-!
# Bindings

* `Role`: how a local name was introduced;
* `Site`: how and where;
* `Binding`: a bound name's type with its site.
-/

namespace TypeSynthesis

/-- How a local binding was introduced. -/
inductive Role
  /-- A function or method parameter. -/
  | parameter
  /-- A `let` or `loop` binding. -/
  | letBound
  /-- The exception local of a `catch` clause. -/
  | caught
  /-- A named function's reference to itself. -/
  | functionSelf
  /-- The reference to the object being defined. -/
  | objectSelf
  /-- A record field, in view in the record's methods. -/
  | field
  deriving DecidableEq, Repr, Inhabited

/-- How and where a binding was introduced. -/
structure Site where
  role : Role
  span : Span
  deriving DecidableEq, Repr, Inhabited

/-- A binding in view. -/
structure Binding where
  type : TypeRef
  site : Site
  deriving DecidableEq, Repr, Inhabited

end TypeSynthesis
