import TypeSynthesis.Resolve.Monad

/-!
# Resolution of forms

A form is resolved from its parts: locals take their types from the scope, type-defining forms are
given their synthesized types, and the chain of lowerings runs over every resolved form.

* `Node.resolve`: the resolution of a form;
* `resolveEach`, `resolveBindings`, `resolveArities`, `resolveClauses`, `resolveMethods`: the
  resolution of the lists that forms are made of.

Methods and arities are resolved under the heads that synthesis returns, one for each.
-/

namespace TypeSynthesis

open ResolveM

mutual

/-- Resolve a form and everything beneath it. -/
def Node.resolve (p : Pipeline) : Node → ResolveM Node
  | .const span value => finish p (.const span value)
  | .localRef span name role type? init? =>
    if role = .parameter then do
      let init? ← resolveOptional p init?
      let type? ← parameterType name type? init?
      finish p (.localRef span name role type? init?)
    else do
      let b ← requireBinding name span
      finish p (.localRef span name role (some b.type) init?)
  | .block span forms => do
    let forms ← resolveEach p forms
    finish p (.block span forms)
  | .cond span test thenForm elseForm? => do
    let test ← Node.resolve p test
    let thenForm ← Node.resolve p thenForm
    let elseForm? ← resolveOptional p elseForm?
    finish p (.cond span test thenForm elseForm?)
  | .invoke span callee args => do
    let callee ← Node.resolve p callee
    let args ← resolveEach p args
    finish p (.invoke span callee args)
  | .staticCall span owner member args resolved? => do
    let args ← resolveEach p args
    finish p (.staticCall span owner member args resolved?)
  | .memberCall span target member args resolved? => do
    let target ← Node.resolve p target
    let args ← resolveEach p args
    finish p (.memberCall span target member args resolved?)
  | .throw span value => do
    let value ← Node.resolve p value
    finish p (.throw span value)
  | .letIn span isLoop bindings body => do
    let (bindings, body) ← inScope do
      let bindings ← resolveBindings p bindings
      let bindings ← refineBindings p bindings
      let body ← Node.resolve p body
      return (bindings, body)
    finish p (.letIn span isLoop bindings body)
  | .fn span head arities => do
    let captures? ← resolveCaptures? head.captures?
    let (wrapper, heads) ← wrapperOf p head (arities.map Arity.head)
    let arities ← resolveArities p (bindFunction head.name? wrapper span) heads arities
    finish p (.fn span { head with captures?, wrapper? := some wrapper } arities)
  | .guarded span captures? body clauses final? => do
    let captures? ← resolveCaptures? captures?
    let body ← inScope (Node.resolve p body)
    let clauses ← resolveClauses p clauses
    let final? ← inScope (resolveOptional p final?)
    finish p (.guarded span captures? body clauses final?)
  | .record span head methods => do
    let (d, heads) ← recordOf p head (methods.map Method.head)
    let c? := (← registry).class? d.id
    let methods ← inScope do
      bindSelf head.selfName d
      bindFields c? head.fields
      resolveMethods p heads methods
    finish p (.record span { head with descriptor? := some d } methods)
  | .object span head methods => do
    let (d, heads) ← objectOf p head (methods.map Method.head)
    let methods ← inScope do
      bindSelf head.selfName d
      resolveMethods p heads methods
    let captures ←
      resolveCaptures (.merge (methods.map fun m => m.head.captures) head.selfName)
    finish p (.object span { head with captures, descriptor? := some d } methods)
  | .superCall span method selfName args => do
    let args ← resolveEach p args
    let bound ← ofExcept (bindSuperCall (← registry) (← scope) span method selfName args)
    finish p bound
  | .baseCall span base method target args => do
    let target ← Node.resolve p target
    let args ← resolveEach p args
    finish p (.baseCall span base method target args)
  | .interface span head => do
    let d ← interfaceOf p head
    finish p (.interface span { head with descriptor? := some d })

/-- Resolve forms in order. -/
def resolveEach (p : Pipeline) : List Node → ResolveM (List Node)
  | [] => pure []
  | n :: ns => do
    let n ← Node.resolve p n
    let ns ← resolveEach p ns
    return n :: ns

/-- Resolve a form that may be absent. -/
def resolveOptional (p : Pipeline) : Option Node → ResolveM (Option Node)
  | none => pure none
  | some n => do
    let n ← Node.resolve p n
    return some n

/-- Resolve bindings in order, each in view of those before it. -/
def resolveBindings (p : Pipeline) : List LetBinding → ResolveM (List LetBinding)
  | [] => pure []
  | ⟨name, init, _, span⟩ :: bs => do
    let init ← Node.resolve p init
    bindName name init.argumentType .letBound span
    let bs ← resolveBindings p bs
    return ⟨name, init, some init.argumentType, span⟩ :: bs

/-- Resolve the bodies of arities, each under its resolved head and with the function's own name
in view. -/
def resolveArities (p : Pipeline) (bindFunction : ResolveM Unit) :
    List ArityHead → List Arity → ResolveM (List Arity)
  | head :: heads, ⟨_, body⟩ :: arities => do
    let body ← inScope do
      bindFunction
      bindParams head.params
      Node.resolve p body
    let arities ← resolveArities p bindFunction heads arities
    return ⟨head, body⟩ :: arities
  | _, _ => pure []

/-- Resolve catch clauses in order. -/
def resolveClauses (p : Pipeline) : List CatchClause → ResolveM (List CatchClause)
  | [] => pure []
  | ⟨head, body⟩ :: clauses => do
    let type ← synthesize (SynthM.resolveTypeName "catch" head.caught)
    let body ← inScope do
      bindName head.name type .caught head.span
      Node.resolve p body
    let clauses ← resolveClauses p clauses
    return ⟨{ head with type? := some type }, body⟩ :: clauses

/-- Resolve the bodies of methods, each under its resolved head. -/
def resolveMethods (p : Pipeline) : List MethodHead → List Method → ResolveM (List Method)
  | head :: heads, ⟨_, body⟩ :: methods => do
    let captures ← resolveCaptures head.captures
    let body ← inScope do
      bindParams (head.self?.toList ++ head.params)
      Node.resolve p body
    let methods ← resolveMethods p heads methods
    return ⟨{ head with captures }, body⟩ :: methods
  | _, _ => pure []

end

end TypeSynthesis
