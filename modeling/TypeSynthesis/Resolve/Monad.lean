import TypeSynthesis.Closure
import TypeSynthesis.Lowering
import TypeSynthesis.SuperCall
import TypeSynthesis.Synthesis.Interface
import TypeSynthesis.Synthesis.Object
import TypeSynthesis.Synthesis.Record
import TypeSynthesis.Synthesis.Wrapper

/-!
# The state of resolution

Resolution reads and extends the session of synthesis, and keeps the bindings in view.

* `Pipeline`: the options, lowerings and refinement of a compilation;
* `ResolveState`, `ResolveM`: a session with a scope, and computations over them;
* `ResolveM.inScope`: a computation in a scope of its own, which is closed whatever happens;
* the steps that the resolution of each kind of form is made of: binding names, typing captures,
  attaching synthesized types, and running the lowerings.
-/

namespace TypeSynthesis

/-- What a compilation is set up with. -/
structure Pipeline where
  options : Options := {}
  lowerings : LoweringChain := {}
  refine : Refinement := Refinement.identity

/-- A session with the bindings in view. -/
structure ResolveState where
  session : Session
  scope : Scope := {}
  deriving DecidableEq, Repr, Inhabited

/-- A computation over a session and a scope, which may fail. -/
abbrev ResolveM := EStateM CompilationError ResolveState

namespace ResolveM

/-- The registry as it is. -/
def registry : ResolveM Registry := fun s => .ok s.session.registry s

/-- The scope as it is. -/
def scope : ResolveM Scope := fun s => .ok s.scope s

/-- Change the scope. -/
def modifyScope (f : Scope → Scope) : ResolveM Unit := fun s =>
  .ok () { s with scope := f s.scope }

/-- A synthesis, which does not see the scope. -/
def synthesize {α : Type} (x : SynthM α) : ResolveM α := fun s =>
  match x s.session with
  | .ok a session => .ok a { s with session }
  | .error e session => .error e { s with session }

/-- Run a computation in a scope of its own, and close the scope also when it fails. -/
def inScope {α : Type} (x : ResolveM α) : ResolveM α := fun s =>
  match x { s with scope := s.scope.push } with
  | .ok a t => .ok a { t with scope := t.scope.pop }
  | .error e t => .error e { t with scope := t.scope.pop }

/-! ### Bindings -/

/-- Bind a name. -/
def bindName (name : String) (type : TypeRef) (role : Role) (span : Span) : ResolveM Unit :=
  modifyScope (·.bind name ⟨type, role, span⟩)

/-- Bind parameters.  One without a type counts as an object. -/
def bindParams : List Param → ResolveM Unit
  | [] => pure ()
  | p :: ps => do
    bindName p.name (p.type?.getD .object) .parameter p.span
    bindParams ps

/-- Bind the name of a function to its wrapper. -/
def bindFunction (name? : Option String) (wrapper : Descriptor) (span : Span) : ResolveM Unit :=
  match name? with
  | some name => bindName name wrapper.type .functionSelf span
  | none => pure ()

/-- Bind the reference of an object to itself. -/
def bindSelf (name : String) (d : Descriptor) : ResolveM Unit :=
  bindName name d.type .objectSelf .unknown

/-- Bind a declared field of a record, if its class has it. -/
def bindField (c? : Option ClassType) (f : FieldDecl) : ResolveM Unit :=
  match c?.bind (·.findField? f.name) with
  | some field => bindName f.name field.type .field f.span
  | none => pure ()

/-- Bind the declared fields of a record that its class has. -/
def bindFields (c? : Option ClassType) : List FieldDecl → ResolveM Unit
  | [] => pure ()
  | f :: fs => do
    bindField c? f
    bindFields c? fs

/-- Bind a name again, unless the type in view is the refined one. -/
def rebindName (b : LetBinding) : ResolveM Unit :=
  match b.type? with
  | some t => do
    let here ← scope
    if here.typeOf? b.name = some t then pure () else bindName b.name t .letBound b.span
  | none => pure ()

/-- Bind again the names whose refined type differs from the one in view. -/
def rebind : List LetBinding → ResolveM Unit
  | [] => pure ()
  | b :: bs => do
    rebindName b
    rebind bs

/-- Refine the types of a binding list and bring the scope up to date. -/
def refineBindings (p : Pipeline) (bs : List LetBinding) : ResolveM (List LetBinding) := do
  let refined := p.refine (← registry) bs
  rebind refined
  return refined

/-! ### Parts of forms -/

/-- Run the lowerings over a resolved form. -/
def finish (p : Pipeline) (n : Node) : ResolveM Node := do
  ofExcept (p.lowerings.run (← registry) n)

/-- The type of a parameter reference: that of its initializer, else that of its binding, else the
one it has. -/
def parameterType (name : String) (type? : Option TypeRef) (init? : Option Node) :
    ResolveM (Option TypeRef) := do
  match init? with
  | some init => return init.staticType? <|> type?
  | none => return (← scope).typeOf? name <|> type?

/-- The binding of a name that must be in view. -/
def requireBinding (name : String) (span : Span) : ResolveM Binding := do
  ofExcept ((← scope).require name span)

/-- The captures with the types of the bindings in view. -/
def resolveCaptures (s : CaptureSet) : ResolveM CaptureSet := do
  return s.resolveIn (← scope)

/-- The captures of a form that may have none. -/
def resolveCaptures? (s? : Option CaptureSet) : ResolveM (Option CaptureSet) := do
  let here ← scope
  return s?.map (·.resolveIn here)

/-- The wrapper of a function literal, synthesized unless it has one. -/
def wrapperOf (p : Pipeline) (head : FnHead) (arities : List ArityHead) :
    ResolveM (Descriptor × List ArityHead) :=
  match head.wrapper? with
  | some d => pure (d, arities)
  | none => synthesize (SynthM.synthesizeWrapper p.options head.name? arities)

/-- The class of a record, synthesized unless it has one. -/
def recordOf (p : Pipeline) (head : RecordHead) (methods : List MethodHead) :
    ResolveM (Descriptor × List MethodHead) :=
  match head.descriptor? with
  | some d => pure (d, methods)
  | none => synthesize (SynthM.synthesizeRecord p.options head methods)

/-- The class of an object literal, synthesized unless it has one. -/
def objectOf (p : Pipeline) (head : ObjectHead) (methods : List MethodHead) :
    ResolveM (Descriptor × List MethodHead) :=
  match head.descriptor? with
  | some d => pure (d, methods)
  | none => synthesize (SynthM.synthesizeObject p.options head methods)

/-- The type of a generated interface, synthesized unless it has one. -/
def interfaceOf (p : Pipeline) (head : InterfaceHead) : ResolveM Descriptor :=
  match head.descriptor? with
  | some d => pure d
  | none => synthesize (SynthM.synthesizeInterface p.options head)

end ResolveM

end TypeSynthesis
