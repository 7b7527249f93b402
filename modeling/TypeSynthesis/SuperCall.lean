import TypeSynthesis.Overload
import TypeSynthesis.Registry.Methods
import TypeSynthesis.Scope
import TypeSynthesis.Tree.StaticType

/-!
# Super calls

* `bindSuperCall`: a call of a proxy's base implementation, bound to the method that its arguments
  select on the base class of the proxy.
-/

namespace TypeSynthesis

/-- The base class of the type that a self-reference is bound to. -/
def superBase (R : Registry) (selfName : String) (type : TypeRef) :
    Except CompilationError TypeId :=
  match (R.class? type.id).bind ClassType.base? with
  | some base => .ok base
  | none =>
    .error (.internal
      s!"'{selfName}' is bound to '{R.display type}', which has no base class")

/-- The method of the base class that a super call with such arguments selects. -/
def superMethod (R : Registry) (base : TypeId) (method : String) (args : List TypeRef)
    (span : Span) : Except CompilationError Signature :=
  match R.select? ((R.methodsOf base).filter (·.name == method)) args with
  | some m => .ok m
  | none => .error (.unresolvedSuperCall method (R.displayAll args) span)

/-- The call of the base implementation that a super call denotes.  Its arguments must be resolved
already. -/
def bindSuperCall (R : Registry) (scope : Scope) (span : Span) (method selfName : String)
    (args : List Node) : Except CompilationError Node := do
  let self ← scope.require selfName span
  let base ← superBase R selfName self.type
  let m ← superMethod R base method (args.map Node.argumentType) span
  return .baseCall span m.declaring m (.localRef span selfName .objectSelf (some self.type) none)
    args

end TypeSynthesis
