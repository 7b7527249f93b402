import TypeSynthesis.Overload
import TypeSynthesis.Registry.Methods
import TypeSynthesis.Tree.StaticType

/-!
# Lowerings of single forms

When a form and everything beneath it is resolved, a fixed chain of three lowerings runs over it:
one binds host calls, one desugars operators, one recognizes intrinsics.  Each can be replaced.
The types of `let` bindings can be refined likewise.

* `Lowering`, `LoweringChain`: a lowering and the chain;
* `Lowering.identity`, `Lowering.hostCalls`: the lowerings of the default chain;
* `Refinement`: a function that refines the types of a binding list.
-/

namespace TypeSynthesis

/-- A lowering of a form whose parts are already lowered. -/
structure Lowering where
  name : String
  run : Registry → Node → Except CompilationError Node

namespace Lowering

/-- The lowering that changes nothing. -/
def identity (name : String) : Lowering := ⟨name, fun _ n => .ok n⟩

/-! ### Host calls -/

/-- The static methods of a named class with a name. -/
def staticCandidates? (R : Registry) (owner : TypeName) (member : String) :
    Option (List Signature) :=
  ((R.find? owner.text).bind Entry.asClass?).map fun c =>
    c.staticMethods.filter (·.name == member)

/-- The methods with a name that are visible on the type of a receiver. -/
def memberCandidates? (R : Registry) (target : Node) (member : String) :
    Option (List Signature) :=
  target.staticType?.map fun t => (R.methodsOf t.id).filter (·.name == member)

/-- The candidate that the arguments of a host call select. -/
def bindHostCall (R : Registry) (candidates? : Option (List Signature)) (args : List Node) :
    Option Signature :=
  candidates?.bind fun ms => R.select? ms (args.map Node.argumentType)

/-- Binds a host call to the unique member that its arguments fit.  A call whose receiver type is
unknown, or that no unique member fits, stays unbound. -/
def hostCalls : Lowering where
  name := "host-interop"
  run R
    | .staticCall span owner member args none =>
      .ok (.staticCall span owner member args
        (bindHostCall R (staticCandidates? R owner member) args))
    | .memberCall span target member args none =>
      .ok (.memberCall span target member args
        (bindHostCall R (memberCandidates? R target member) args))
    | n => .ok n

end Lowering

/-! ### The chain -/

/-- The lowerings that run over every resolved form, in order. -/
structure LoweringChain where
  interop : Lowering := Lowering.hostCalls
  operators : Lowering := Lowering.identity "operator-desugar"
  intrinsics : Lowering := Lowering.identity "intrinsic-recognition"

namespace LoweringChain

/-- The names of the lowerings in order. -/
def names (c : LoweringChain) : List String := [c.interop.name, c.operators.name, c.intrinsics.name]

/-- Run the chain over a form. -/
def run (c : LoweringChain) (R : Registry) (n : Node) : Except CompilationError Node := do
  let n ← c.interop.run R n
  let n ← c.operators.run R n
  c.intrinsics.run R n

end LoweringChain

/-- Refines the types of a binding list whose types are known. -/
abbrev Refinement := Registry → List LetBinding → List LetBinding

/-- The refinement that keeps every type. -/
def Refinement.identity : Refinement := fun _ bs => bs

end TypeSynthesis
