import TypeSynthesis.Scope
import TypeSynthesis.Tree.Capture

/-!
# Captures of closures

* `CaptureSet.merge`: what an object captures, from what its methods capture;
* `CaptureSet.resolveIn`: the captures with the types and sites of the bindings in view.
-/

namespace TypeSynthesis.CaptureSet

/-- Add a capture, unless one of its name is there that is resolved or as unresolved as it. -/
def join (s : CaptureSet) (c : Capture) : CaptureSet :=
  match s.get? c.name with
  | some d => if d.isResolved || !c.isResolved then s else s.insert c
  | none => s.insert c

/-- The union of capture sets without the reference of an object to itself.  Only the object's own
reference is dropped: that of an enclosing object is a capture like any other, and an outer
binding that merely shares the name keeps its role. -/
def merge (sets : List CaptureSet) (selfName : String) : CaptureSet :=
  ((sets.flatMap toList).foldl join empty).filter fun c =>
    !(c.isObjectSelf && c.name == selfName)

/-- The captures with the types and sites of the bindings in view.  Names that are not bound stay
as they are. -/
def resolveIn (s : CaptureSet) (scope : Scope) : CaptureSet :=
  s.update fun c =>
    match scope.get? c.name with
    | some b => (some b.site, some b.type)
    | none => (c.site?, c.type?)

end TypeSynthesis.CaptureSet
