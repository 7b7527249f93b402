import TypeSynthesis.Resolve.Node

/-!
# Compilation of top-level forms

* `Pipeline.resolveForm`: the resolution of one form in an empty scope;
* `Pipeline.resolveForms`: the resolution of forms in order, in one session;
* `Output`: the forms that resolved and the errors of those that did not.

Each form sees the types of the forms before it.  A form that fails is skipped.
-/

namespace TypeSynthesis

/-- The forms that resolved and the errors of those that did not, both in order. -/
structure Output where
  forms : List Node := []
  errors : List CompilationError := []
  deriving Inhabited

namespace Output

/-- Whether every form resolved. -/
def isSuccess (o : Output) : Bool := o.errors.isEmpty

/-- The output with one more result in front. -/
def cons (result : Except CompilationError Node) (o : Output) : Output :=
  match result with
  | .ok n => { o with forms := n :: o.forms }
  | .error e => { o with errors := e :: o.errors }

end Output

namespace Pipeline

/-- Resolve a form in an empty scope. -/
def resolveForm (p : Pipeline) (s : Session) (form : Node) :
    Except CompilationError Node × Session :=
  match form.resolve p { session := s } with
  | .ok n t => (.ok n, t.session)
  | .error e t => (.error e, t.session)

/-- Resolve forms in order, each in an empty scope and all in one session. -/
def resolveForms (p : Pipeline) : Session → List Node → Output × Session
  | s, [] => ({}, s)
  | s, form :: forms =>
    let (result, s) := p.resolveForm s form
    let (output, s) := p.resolveForms s forms
    (output.cons result, s)

end Pipeline

end TypeSynthesis
